import Broker.Agent.Runs
import Mathlib.Data.List.Induction
import Mathlib.Data.List.Nodup

/-!
# Broker.Agent.Evidence — the model evidence a job collects

A client job keeps at most ten model observations, one for each kind and model; once the list is full a
stronger observation takes the place of the weakest entry and the job is marked truncated.  `Sound` relates
the list to every observation made so far: the responses in it are never given up, the first of them is the
first ever made, and a response that is missing was refused by a list of ten responses.
-/

namespace Broker.Agent

open Broker.Db

def Observation.isResponse (o : Observation) : Bool := o.kind = .response

/-- What `_fold_observation` tells observations apart by. -/
def Observation.pair (o : Observation) : EvidenceKind × String := (o.kind, o.model)

theorem EvidenceKind.rank_le (k : EvidenceKind) : k.rank ≤ 3 := by
  cases k <;> decide

theorem EvidenceKind.rank_eq_iff (k : EvidenceKind) : k.rank = 3 ↔ k = .response := by
  cases k <;> decide

/-! ### The weakest and the strongest entry -/

theorem weakest_spec : ∀ {items : List Observation}, items ≠ [] →
    ∃ o, items[weakest items]? = some o ∧ ∀ p ∈ items, o.kind.rank ≤ p.kind.rank
  | [], h => absurd rfl h
  | [o], _ => ⟨o, rfl, by simp⟩
  | o :: q :: os, _ => by
    have hrest : q :: os ≠ [] := List.cons_ne_nil q os
    obtain ⟨p, hp, hmin⟩ := weakest_spec hrest
    unfold weakest
    simp only [hp]
    split_ifs with hlt
    · refine ⟨p, by simpa using hp, fun r hr => ?_⟩
      rcases List.mem_cons.mp hr with rfl | hr
      · exact hlt.le
      · exact hmin r hr
    · refine ⟨o, rfl, fun r hr => ?_⟩
      rcases List.mem_cons.mp hr with rfl | hr
      · exact le_rfl
      · exact le_trans (not_lt.mp hlt) (hmin r hr)

theorem strongest_mem {items : List Observation} {best : Observation} (h : strongest items = some best) :
    best ∈ items ∧ ∀ p ∈ items, p.kind.rank ≤ best.kind.rank := by
  induction items generalizing best with
  | nil => simp [strongest] at h
  | cons o os ih =>
    unfold strongest at h
    cases hs : strongest os with
    | none =>
      rw [hs] at h
      obtain rfl := Option.some.inj h
      have hnil : os = [] := by
        cases os with
        | nil => rfl
        | cons q qs =>
          unfold strongest at hs
          split at hs
          · split_ifs at hs
          · simp at hs
      simp [hnil]
    | some p =>
      obtain ⟨hp, hmax⟩ := ih hs
      rw [hs] at h
      simp only at h
      split_ifs at h with hlt
      · obtain rfl := Option.some.inj h
        refine ⟨List.mem_cons_of_mem o hp, fun r hr => ?_⟩
        rcases List.mem_cons.mp hr with rfl | hr
        · exact hlt.le
        · exact hmax r hr
      · obtain rfl := Option.some.inj h
        refine ⟨List.mem_cons_self, fun r hr => ?_⟩
        rcases List.mem_cons.mp hr with rfl | hr
        · exact le_rfl
        · exact le_trans (hmax r hr) (not_lt.mp hlt)

/-- A response that wins is the first one of the list. -/
theorem strongest_response {items : List Observation} {best : Observation} (h : strongest items = some best)
    (hr : best.kind = .response) : items.find? Observation.isResponse = some best := by
  induction items with
  | nil => simp [strongest] at h
  | cons o os ih =>
    unfold strongest at h
    cases hs : strongest os with
    | none =>
      rw [hs] at h
      obtain rfl := Option.some.inj h
      simp [Observation.isResponse, hr]
    | some p =>
      rw [hs] at h
      simp only at h
      split_ifs at h with hlt
      · obtain rfl := Option.some.inj h
        have ho : o.kind ≠ .response := by
          intro ho
          rw [ho, hr] at hlt
          exact lt_irrefl _ hlt
        rw [List.find?_cons_of_neg (by simp [Observation.isResponse, ho])]
        exact ih hs
      · obtain rfl := Option.some.inj h
        simp [Observation.isResponse, hr]

/-! ### Folding one observation in -/

/-- What a fold does: nothing for a known pair; an entry more while there is room; then the weakest entry
gives way to a stronger observation, or the observation is dropped. -/
theorem foldObservation_cases {items : List Observation} {existing : Option (List Observation)}
    (he : existing.getD [] = items) (o : Observation) :
    ((∃ p ∈ items, p.pair = o.pair) ∧ foldObservation existing o.model o.kind o.source = (items, false)) ∨
    ((∀ p ∈ items, p.pair ≠ o.pair) ∧
      ((items.length < 10 ∧ foldObservation existing o.model o.kind o.source = (items ++ [o], false)) ∨
       (10 ≤ items.length ∧ ∃ w p, items[w]? = some p ∧ p.kind.rank < o.kind.rank ∧
          foldObservation existing o.model o.kind o.source = (items.set w o, true)) ∨
       (10 ≤ items.length ∧ (∀ p ∈ items, o.kind.rank ≤ p.kind.rank) ∧
          foldObservation existing o.model o.kind o.source = (items, true)))) := by
  unfold foldObservation maxModelObservations
  rw [he]
  by_cases hdup : ∃ p ∈ items, p.pair = o.pair
  · refine .inl ⟨hdup, ?_⟩
    obtain ⟨p, hp, heq⟩ := hdup
    obtain ⟨hk, hm⟩ := Prod.mk.inj heq
    exact if_pos (List.any_eq_true.mpr ⟨p, hp, by simp [hk, hm]⟩)
  · have hnew : ∀ p ∈ items, p.pair ≠ o.pair := fun p hp heq => hdup ⟨p, hp, heq⟩
    have hany : ¬ (items.any fun p => decide (p.kind = o.kind ∧ p.model = o.model)) = true := by
      intro hany
      obtain ⟨p, hp, heq⟩ := List.any_eq_true.mp hany
      obtain ⟨hk, hm⟩ := of_decide_eq_true heq
      exact hnew p hp (Prod.ext hk hm)
    refine .inr ⟨hnew, ?_⟩
    dsimp only
    rw [if_neg hany]
    by_cases hroom : items.length < 10
    · exact .inl ⟨hroom, if_pos hroom⟩
    · have hfull : 10 ≤ items.length := not_lt.mp hroom
      have hitems : items ≠ [] := by
        rintro rfl
        simp at hfull
      obtain ⟨p, hp, hmin⟩ := weakest_spec hitems
      rw [if_neg hroom, hp, Option.elim_some]
      by_cases hlt : o.kind.rank > p.kind.rank
      · exact .inr (.inl ⟨hfull, _, p, hp, hlt, by rw [if_pos hlt]⟩)
      · exact .inr (.inr ⟨hfull, fun q hq => le_trans (not_lt.mp hlt) (hmin q hq), by rw [if_neg hlt]⟩)

/-- A response is never the entry that gives way. -/
theorem response_mem_foldObservation {items : List Observation} {existing : Option (List Observation)}
    (he : existing.getD [] = items) (o : Observation) {p : Observation} (hp : p ∈ items) (hk : p.kind = .response) :
    p ∈ (foldObservation existing o.model o.kind o.source).1 := by
  rcases foldObservation_cases he o with ⟨-, heq⟩ | ⟨-, ⟨-, heq⟩ | ⟨-, w, q, hw, hlt, heq⟩ | ⟨-, -, heq⟩⟩
  · rw [heq]
    exact hp
  · rw [heq]
    exact List.mem_append_left _ hp
  · rw [heq]
    obtain ⟨i, hi⟩ := List.mem_iff_getElem?.mp hp
    have hne : w ≠ i := by
      rintro rfl
      obtain rfl : q = p := Option.some.inj (hw.symm.trans hi)
      have hrank := (EvidenceKind.rank_eq_iff _).mpr hk
      have hle := o.kind.rank_le
      omega
    refine List.mem_iff_getElem?.mpr ⟨i, ?_⟩
    rw [List.getElem?_set_ne hne]
    exact hi
  · rw [heq]
    exact hp

/-! ### The list beside everything observed -/

/-- The list and its flag beside the observations made so far, in their order. -/
structure Sound (items : List Observation) (cut : Bool) (seen : List Observation) : Prop where
  length_le : items.length ≤ 10
  nodup : (items.map Observation.pair).Nodup
  subset : ∀ o ∈ items, o ∈ seen
  first : ∀ o, seen.find? Observation.isResponse = some o → o ∈ items
  order : cut = false → items.find? Observation.isResponse = seen.find? Observation.isResponse
  kept : ∀ o ∈ seen, o.kind = .response →
    (∃ p ∈ items, p.pair = o.pair) ∨ (10 ≤ items.length ∧ ∀ p ∈ items, p.kind = .response)

namespace Sound

variable {items seen : List Observation} {cut : Bool}

theorem nil : Sound [] false [] := ⟨by simp, by simp, by simp, by simp, by simp, by simp⟩

/-- The first response of a longer history: an old one, or the new one where there was none. -/
theorem find?_concat {o o' : Observation} (h : (seen ++ [o]).find? Observation.isResponse = some o') :
    seen.find? Observation.isResponse = some o' ∨ ((∀ p ∈ seen, p.kind ≠ .response) ∧ o' = o ∧ o.kind = .response) := by
  rw [List.find?_append] at h
  cases hs : seen.find? Observation.isResponse with
  | some p =>
    rw [hs] at h
    exact .inl h
  | none =>
    rw [hs] at h
    have hnone : ∀ p ∈ seen, p.kind ≠ .response := by simpa [Observation.isResponse] using hs
    have ho : o.kind = .response ∧ o = o' := by simpa [Observation.isResponse, List.find?_singleton] using h
    exact .inr ⟨hnone, ho.2.symm, ho.1⟩

/-- **One observation more keeps the list sound.** -/
theorem fold (hs : Sound items cut seen) {existing : Option (List Observation)} (he : existing.getD [] = items)
    (o : Observation) :
    Sound (foldObservation existing o.model o.kind o.source).1
      (cut || (foldObservation existing o.model o.kind o.source).2) (seen ++ [o]) := by
  have hresp : ∀ p : Observation, p.pair = o.pair → o.kind = .response → p.kind = .response := by
    intro p hpair ho
    rw [← ho]
    exact congrArg Prod.fst hpair
  rcases foldObservation_cases he o with
    ⟨⟨p, hp, hpair⟩, heq⟩ | ⟨hnew, ⟨hroom, heq⟩ | ⟨hfull, w, q, hw, hlt, heq⟩ | ⟨hfull, hweak, heq⟩⟩
  · -- a known pair
    rw [heq]
    refine ⟨hs.length_le, hs.nodup, fun r hr => List.mem_append_left _ (hs.subset r hr), ?_, ?_, ?_⟩
    · intro r hr
      rcases find?_concat hr with hold | ⟨hnone, -, ho⟩
      · exact hs.first r hold
      · exact absurd (hresp p hpair ho) (hnone p (hs.subset p hp))
    · intro hcut
      rw [hs.order (by simpa using hcut), List.find?_append]
      cases hf : seen.find? Observation.isResponse with
      | some r => rfl
      | none =>
        have hnone : ∀ r ∈ seen, r.kind ≠ .response := by simpa [Observation.isResponse] using hf
        have ho : o.kind ≠ .response := fun ho => hnone p (hs.subset p hp) (hresp p hpair ho)
        simp [Observation.isResponse, ho]
    · intro r hr hk
      rcases List.mem_append.mp hr with hr | hr
      · exact hs.kept r hr hk
      · obtain rfl := List.mem_singleton.mp hr
        exact .inl ⟨p, hp, hpair⟩
  · -- an entry more
    rw [heq]
    refine ⟨by simp; omega, ?_, ?_, ?_, ?_, ?_⟩
    · rw [List.map_append, List.nodup_append]
      refine ⟨hs.nodup, by simp, fun a ha b hb hab => ?_⟩
      obtain ⟨p, hp, rfl⟩ := List.mem_map.mp ha
      obtain rfl : b = o.pair := by simpa using hb
      exact hnew p hp hab
    · intro r hr
      rcases List.mem_append.mp hr with hr | hr
      · exact List.mem_append_left _ (hs.subset r hr)
      · exact List.mem_append_right _ hr
    · intro r hr
      rcases find?_concat hr with hold | ⟨-, rfl, -⟩
      · exact List.mem_append_left _ (hs.first r hold)
      · exact List.mem_append_right _ (by simp)
    · intro hcut
      rw [List.find?_append, List.find?_append, hs.order (by simpa using hcut)]
    · intro r hr hk
      rcases List.mem_append.mp hr with hr | hr
      · rcases hs.kept r hr hk with ⟨p, hp, hpair⟩ | ⟨hlen, -⟩
        · exact .inl ⟨p, List.mem_append_left _ hp, hpair⟩
        · omega
      · exact .inl ⟨r, List.mem_append_right _ hr, rfl⟩
  · -- the weakest entry gives way
    have hkeep : ∀ p ∈ items, p.kind = .response → p ∈ items.set w o := by
      intro p hp hk
      have hmem := response_mem_foldObservation he o hp hk
      rw [heq] at hmem
      exact hmem
    have ho : o ∈ items.set w o := List.mem_set (List.getElem?_eq_some_iff.mp hw).1 o
    rw [heq]
    refine ⟨by rw [List.length_set]; exact hs.length_le, ?_, ?_, ?_, by simp, ?_⟩
    · rw [List.map_set]
      refine hs.nodup.set ?_
      intro hmem
      obtain ⟨p, hp, hpair⟩ := List.mem_map.mp hmem
      exact hnew p hp hpair
    · intro r hr
      rcases List.mem_or_eq_of_mem_set hr with hr | rfl
      · exact List.mem_append_left _ (hs.subset r hr)
      · exact List.mem_append_right _ (by simp)
    · intro r hr
      rcases find?_concat hr with hold | ⟨-, rfl, -⟩
      · exact hkeep r (hs.first r hold) (by simpa [Observation.isResponse] using List.find?_some hold)
      · exact ho
    · intro r hr hk
      rcases List.mem_append.mp hr with hr | hr
      · rcases hs.kept r hr hk with ⟨p, hp, hpair⟩ | ⟨-, hall⟩
        · exact .inl ⟨p, hkeep p hp ((congrArg Prod.fst hpair).trans hk), hpair⟩
        · have hq := (EvidenceKind.rank_eq_iff _).mpr (hall q (List.mem_of_getElem? hw))
          have hle := o.kind.rank_le
          omega
      · obtain rfl := List.mem_singleton.mp hr
        exact .inl ⟨r, ho, rfl⟩
  · -- the observation is dropped
    have hall : o.kind = .response → ∀ p ∈ items, p.kind = .response := by
      intro ho p hp
      have hle := hweak p hp
      rw [(EvidenceKind.rank_eq_iff _).mpr ho] at hle
      exact (EvidenceKind.rank_eq_iff _).mp (le_antisymm p.kind.rank_le hle)
    rw [heq]
    refine ⟨hs.length_le, hs.nodup, fun r hr => List.mem_append_left _ (hs.subset r hr), ?_, by simp, ?_⟩
    · intro r hr
      rcases find?_concat hr with hold | ⟨hnone, -, ho⟩
      · exact hs.first r hold
      · obtain ⟨p, hp⟩ := List.exists_mem_of_length_pos (show 0 < items.length by omega)
        exact absurd (hall ho p hp) (hnone p (hs.subset p hp))
    · intro r hr hk
      rcases List.mem_append.mp hr with hr | hr
      · exact hs.kept r hr hk
      · obtain rfl := List.mem_singleton.mp hr
        exact .inr ⟨hfull, hall hk⟩

/-- A served model that is reported is that of the first response ever made, and behind a truncated list
every response ever made named it. -/
theorem served (hs : Sound items cut seen) {m : String} (h : (servedModelMeta items cut).modelServed = some m) :
    (∃ o, seen.find? Observation.isResponse = some o ∧ o.model = m) ∧
      (cut = true → ∀ o ∈ seen, o.kind = .response → o.model = m) := by
  unfold servedModelMeta at h
  cases hbest : strongest items with
  | none => simp [hbest] at h
  | some best =>
    simp only [hbest] at h
    split_ifs at h with hstrict
    obtain rfl := Option.some.inj h
    rw [Bool.and_eq_true, decide_eq_true_eq] at hstrict
    obtain ⟨hresp, hone⟩ := hstrict
    have hmem := (strongest_mem hbest).1
    -- a truncated list that reports a model has no second one
    have hsame : cut = true → ∀ p ∈ items, p.kind = .response → p.model = best.model := by
      intro hcut p hp hk
      by_contra hne
      have hin : ∀ q ∈ items, q.kind = .response →
          q.model ∈ ((items.filter fun o => o.kind = .response).map (·.model)).eraseDups := by
        intro q hq hqk
        rw [List.mem_eraseDups]
        exact List.mem_map_of_mem (List.mem_filter.mpr ⟨hq, by simpa using hqk⟩)
      have hlen := hone
      rw [hcut, Bool.true_and, Bool.not_eq_true', decide_eq_false_iff_not, not_lt] at hlen
      have hp' := hin p hp hk
      have hb' := hin best hmem hresp
      rcases hl : ((items.filter fun o => o.kind = .response).map (·.model)).eraseDups with _ | ⟨a, _ | ⟨b, l⟩⟩
      · rw [hl] at hp'
        simp at hp'
      · rw [hl] at hp' hb'
        exact hne ((List.mem_singleton.mp hp').trans (List.mem_singleton.mp hb').symm)
      · rw [hl] at hlen
        simp at hlen
    have hsome : (seen.find? Observation.isResponse).isSome = true := by
      rw [List.find?_isSome]
      exact ⟨best, hs.subset best hmem, by simpa [Observation.isResponse] using hresp⟩
    obtain ⟨o, ho⟩ := Option.isSome_iff_exists.mp hsome
    have hok : o.kind = .response := by simpa [Observation.isResponse] using List.find?_some ho
    refine ⟨⟨o, ho, ?_⟩, ?_⟩
    · cases hcut : cut with
      | true => exact hsame hcut o (hs.first o ho) hok
      | false =>
        have horder := hs.order hcut
        rw [strongest_response hbest hresp, ho] at horder
        rw [Option.some.inj horder]
    · intro hcut r hr hk
      rcases hs.kept r hr hk with ⟨p, hp, hpair⟩ | ⟨hfull, hall⟩
      · have hpk : p.kind = .response := (congrArg Prod.fst hpair).trans hk
        rw [← hsame hcut p hp hpk]
        exact (congrArg Prod.snd hpair).symm
      · -- ten responses of one model would be one entry
        exfalso
        have hpairs : ∀ p ∈ items, p.pair = best.pair := by
          intro p hp
          exact Prod.ext ((hall p hp).trans hresp.symm) (hsame hcut p hp (hall p hp))
        have hrep : items.map Observation.pair = List.replicate items.length best.pair := by
          rw [List.eq_replicate_iff]
          refine ⟨List.length_map .., fun a ha => ?_⟩
          obtain ⟨p, hp, rfl⟩ := List.mem_map.mp ha
          exact hpairs p hp
        have hnodup := hs.nodup
        rw [hrep, List.nodup_replicate] at hnodup
        omega

end Sound

/-! ### The job row -/

/-- The stored observations of a job. -/
def observations (job : AgentJobRow) : List Observation := (metaOf job).modelObservations.getD []

/-- `observations_truncated`. -/
def truncated (job : AgentJobRow) : Bool := (metaOf job).observationsTruncated.getD false

/-- An event stored by `append_event`: when, on which run row. -/
structure StoredEvent where
  now : Time
  run : AgentRunRow
  event : AnyEvent

/-- The job row after the events. -/
def storeAll (env : Env) (job : AgentJobRow) (evs : List StoredEvent) : AgentJobRow :=
  evs.foldl (fun job e => appendJob env e.now e.run job e.event) job

/-- The observation an event reports. -/
def StoredEvent.observed (e : StoredEvent) : Option Observation :=
  match e.event with
  | .modelObserved model kind source => some ⟨model, kind, source⟩
  | _ => none

variable (env : Env)

theorem storeAll_concat (job : AgentJobRow) (evs : List StoredEvent) (e : StoredEvent) :
    storeAll env job (evs ++ [e]) = appendJob env e.now e.run (storeAll env job evs) e.event := by
  simp [storeAll, List.foldl_append]

section

variable {env} {job : AgentJobRow} {e : StoredEvent} (ht : e.event.type.terminal = false)

include ht

theorem appendJob_request : (appendJob env e.now e.run job e.event).request = job.request := by
  simp [appendJob, ht]

theorem appendJob_observed (hclient : job.request.clientJob.isSome = true) {o : Observation}
    (ho : e.observed = some o) :
    let f := foldObservation (metaOf job).modelObservations o.model o.kind o.source
    observations (appendJob env e.now e.run job e.event) = f.1 ∧
      truncated (appendJob env e.now e.run job e.event) = (truncated job || f.2) := by
  obtain ⟨now, run, ev⟩ := e
  unfold StoredEvent.observed at ho
  split at ho
  · next model kind source hev =>
    obtain rfl : ev = _ := hev
    obtain rfl := Option.some.inj ho
    simp only [appendJob, ht, foldMeta, hclient, observations, truncated, metaOf]
    refine ⟨rfl, ?_⟩
    simp only [if_true, Option.getD_some, Bool.false_eq_true, if_false]
    split_ifs with hcut
    · simp [hcut]
    · simp [Bool.eq_false_iff.mpr hcut]
  · simp at ho

theorem appendJob_of_not_observed (ho : e.observed = none) :
    observations (appendJob env e.now e.run job e.event) = observations job ∧
      truncated (appendJob env e.now e.run job e.event) = truncated job := by
  obtain ⟨now, run, ev⟩ := e
  rw [appendJob, if_neg (by simp [ht])]
  unfold observations truncated metaOf foldMeta
  cases ev with
  | modelObserved model kind source => simp [StoredEvent.observed] at ho
  | usage u =>
    dsimp only
    split_ifs <;> exact ⟨rfl, rfl⟩
  | runStarted =>
    dsimp only
    split_ifs <;> exact ⟨rfl, rfl⟩
  | _ => exact ⟨rfl, rfl⟩

end

/-- The stored evidence of a client job beside the observations among its events. -/
theorem sound_storeAll {job : AgentJobRow} (hclient : job.request.clientJob.isSome = true)
    (hnew : observations job = []) (hcut : truncated job = false) {evs : List StoredEvent}
    (hopen : ∀ e ∈ evs, e.event.type.terminal = false) :
    (storeAll env job evs).request = job.request ∧
      Sound (observations (storeAll env job evs)) (truncated (storeAll env job evs))
        (evs.filterMap StoredEvent.observed) := by
  induction evs using List.reverseRecOn with
  | nil =>
    refine ⟨rfl, ?_⟩
    rw [storeAll, List.foldl_nil, hnew, hcut]
    exact Sound.nil
  | append_singleton evs e ih =>
    have hlast : e.event.type.terminal = false := hopen e (by simp)
    obtain ⟨hreq, hs⟩ := ih fun e' he' => hopen e' (List.mem_append_left _ he')
    rw [storeAll_concat, List.filterMap_append]
    refine ⟨(appendJob_request hlast).trans hreq, ?_⟩
    cases ho : e.observed with
    | none =>
      obtain ⟨hobs, htr⟩ :
          observations (appendJob env e.now e.run (storeAll env job evs) e.event) = observations (storeAll env job evs) ∧
            truncated (appendJob env e.now e.run (storeAll env job evs) e.event) = truncated (storeAll env job evs) :=
        appendJob_of_not_observed hlast ho
      rw [hobs, htr]
      simpa [ho] using hs
    | some o =>
      have hclient' : (storeAll env job evs).request.clientJob.isSome = true := by
        rw [hreq]
        exact hclient
      obtain ⟨hobs, htr⟩ := @appendJob_observed env _ _ hlast hclient' _ ho
      rw [hobs, htr]
      simpa [ho] using hs.fold rfl o

theorem response_mem_storeAll {job : AgentJobRow} (hclient : job.request.clientJob.isSome = true)
    (hnew : observations job = []) (hcut : truncated job = false) {us vs : List StoredEvent}
    (hopen : ∀ e ∈ us ++ vs, e.event.type.terminal = false) {o : Observation}
    (ho : o ∈ observations (storeAll env job us)) (hk : o.kind = .response) :
    o ∈ observations (storeAll env job (us ++ vs)) := by
  induction vs using List.reverseRecOn with
  | nil => simpa using ho
  | append_singleton vs e ih =>
    rw [← List.append_assoc] at hopen ⊢
    have hlast : e.event.type.terminal = false := hopen e (by simp)
    have hopen' : ∀ e' ∈ us ++ vs, e'.event.type.terminal = false :=
      fun e' he' => hopen e' (List.mem_append_left _ he')
    have hmem := ih hopen'
    rw [storeAll_concat]
    cases hobs : e.observed with
    | none =>
      rw [(appendJob_of_not_observed hlast hobs).1]
      exact hmem
    | some p =>
      have hreq := (sound_storeAll env hclient hnew hcut hopen').1
      rw [(appendJob_observed hlast (by rw [hreq]; exact hclient) hobs).1]
      exact response_mem_foldObservation rfl p hmem hk

/-- **The model evidence of a client job is sound.**  Whatever events a run stores, the list holds at most ten
observations with distinct pairs and never gives up a response; a served model that is reported is that of the
first response ever observed, and once the list is truncated every response ever observed named it. -/
theorem model_evidence_sound (job : AgentJobRow) (hclient : job.request.clientJob.isSome = true)
    (hnew : observations job = []) (hcut : truncated job = false) (evs : List StoredEvent)
    (hopen : ∀ e ∈ evs, e.event.type.terminal = false) :
    let stored := storeAll env job evs
    let seen := evs.filterMap StoredEvent.observed
    (observations stored).length ≤ 10 ∧ ((observations stored).map Observation.pair).Nodup ∧
    (∀ us vs, evs = us ++ vs → ∀ o ∈ observations (storeAll env job us), o.kind = .response →
      o ∈ observations stored) ∧
    ∀ m, (servedModelMeta (observations stored) (truncated stored)).modelServed = some m →
      (∃ o, seen.find? Observation.isResponse = some o ∧ o.model = m) ∧
      (truncated stored = true → ∀ o ∈ seen, o.kind = .response → o.model = m) := by
  intro stored seen
  obtain ⟨-, hs⟩ := sound_storeAll env hclient hnew hcut hopen
  refine ⟨hs.length_le, hs.nodup, ?_, fun m hm => hs.served hm⟩
  rintro us vs rfl o ho hk
  exact response_mem_storeAll env hclient hnew hcut hopen ho hk

/-- A queued client job of a new run. -/
def newClientJob : AgentJobRow where
  id := 1
  projectId := 1
  capability := "agent:codex"
  status := .running
  request := { clientJob := some { provider := "codex", model := "a" } }
  resultText := none
  resultMeta := none
  errorMessage := none
  retryCount := 0
  runAfter := none
  startedAt := none
  createdAt := 0
  completedAt := none
  cancelRequested := false
  priority := 0

/-- A session that starts with one model and is answered by another. -/
def twoObservations : List StoredEvent :=
  let run : AgentRunRow := { runId := 1, projectId := 1, capability := .codex, accountId := "main" }
  [⟨1, run, .modelObserved "a" .sessionInit "init"⟩, ⟨2, run, .modelObserved "b" .response "turn"⟩]

theorem model_evidence_twoObservations :
    let env : Env := ⟨fun t => t, fun t _ => t, fun ev => ev, fun _ _ => none, fun _ => [], fun _ => ""⟩
    let stored := storeAll env newClientJob twoObservations
    (servedModelMeta (observations stored) (truncated stored)).modelServed = some "b" ∧
      ∃ o, (twoObservations.filterMap StoredEvent.observed).find? Observation.isResponse = some o ∧ o.model = "b" := by
  intro env stored
  have hserved : (servedModelMeta (observations stored) (truncated stored)).modelServed = some "b" := by
    decide +kernel
  have hsound := model_evidence_sound env newClientJob rfl rfl rfl twoObservations (by decide)
  exact ⟨hserved, (hsound.2.2.2 "b" hserved).1⟩

end Broker.Agent
