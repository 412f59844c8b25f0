import Broker.Services.Dispatch

/-!
# Broker.Services.JobCancel — what a client's cancel stops

`cancel_job` closes a pending job at once and only flags a running one.  The flag is read in three
places: in the row a claim returned, by `should_stop` before every attempt, and by `_requeue_or_fail`.
A worker that a stale sweep has superseded may still be on its way to an attempt, and closing the
pending row does not set the flag it reads.
-/

namespace Broker.Services

open Broker.Lib Broker.Db

variable {cfg : QueueConfig}

/-! ### Workers under one step -/

/-- What a step of a worker does to the phases and the attempts. -/
theorem QueueSys.step_worker {s s' : QueueSys} {i : ℕ} {m : WorkerMove}
    (h : s.step cfg (.worker i m) = some s') :
    ∃ w p, s.workers[i]? = some w ∧ stepWorker cfg s.rows w m = some (s'.rows, p) ∧
      s'.workers = s.workers.set i (w.setPhase p) ∧ s'.started = s.started ++ startedBy i w m := by
  cases QueueSys.step_cases h with
  | worker _ _ w rows p hw hstep => exact ⟨w, p, hw, hstep, rfl, rfl⟩

/-- A worker after a step is new, untouched, or the one that moved. -/
theorem QueueSys.step_workers {s s' : QueueSys} {a : QueueAct} (hids : (s.rows.map (·.id)).Nodup)
    (h : s.step cfg a = some s') {i : ℕ} {w' : Worker} (hw' : s'.workers[i]? = some w') :
    s.workers[i]? = some w' ∨
    (∃ m w, a = .worker i m ∧ s.workers[i]? = some w ∧ w'.row = w.row ∧
      stepWorker cfg s.rows w m = some (s'.rows, w'.phase)) ∨
    (∃ r now, r ∈ s.rows ∧ r.status = .pending ∧ w'.row = claimRow now r ∧ w'.phase = .claimed) := by
  cases QueueSys.step_cases h with
  | submit | stale | cancel => exact .inl hw'
  | claim now limit locked taken ht =>
    rw [QueueSys.claimed, List.getElem?_append] at hw'
    split_ifs at hw' with hlt
    · exact .inl hw'
    · obtain ⟨r, hr, rfl⟩ := List.mem_map.mp (List.mem_of_getElem? hw')
      obtain ⟨hmem, hp⟩ := List.mem_filter.mp hr
      exact .inr (.inr ⟨r, now, hmem, ht.pending hids hmem hp, rfl, rfl⟩)
  | worker k m w rows p hw hstep =>
    rw [List.getElem?_set] at hw'
    split_ifs at hw' with hki
    · subst hki
      obtain rfl := Option.some.inj hw'
      exact .inr (.inl ⟨m, w, rfl, hw, rfl, hstep⟩)
    · exact .inl hw'

/-- The attempts of a step are those its worker's move starts. -/
theorem QueueSys.step_started {s s' : QueueSys} {a : QueueAct} (h : s.step cfg a = some s') :
    s'.started = s.started ∨
    ∃ i w p, a = .worker i .start ∧ s.workers[i]? = some w ∧
      stepWorker cfg s.rows w .start = some (s'.rows, p) ∧
      s'.started = s.started ++ [(w.row.id, i)] ∧ s'.workers = s.workers.set i (w.setPhase p) := by
  cases QueueSys.step_cases h with
  | submit | claim | stale | cancel => exact .inl rfl
  | worker i m w rows p hw hstep =>
    cases m with
    | start => exact .inr ⟨i, w, p, rfl, hw, hstep, rfl, rfl⟩
    | _ => exact .inl (by simp [startedBy])

/-! ### Columns that never change back -/

theorem RowStep.capability_eq {s : QueueSys} {r r' : PlainJobRow} (h : RowStep cfg s r r') :
    r'.capability = r.capability := by
  cases h with
  | cancel now => unfold cancelRow; split <;> rfl
  | _ => rfl

/-- A cancel request is never withdrawn. -/
theorem RowStep.cancelRequested_mono {s : QueueSys} {r r' : PlainJobRow} (h : RowStep cfg s r r')
    (hr : r.cancelRequested = true) : r'.cancelRequested = true := by
  cases h with
  | cancel now =>
    unfold cancelRow
    split
    · exact hr
    · rfl
    · exact hr
  | _ => exact hr

theorem cancelFlag_eq {rows : List PlainJobRow} (hids : (rows.map (·.id)).Nodup) {r : PlainJobRow}
    (hr : r ∈ rows) : cancelFlag r.id rows = r.cancelRequested := by
  unfold cancelFlag
  cases hf : rows.find? (fun r' => r'.id = r.id) with
  | none => exact absurd (List.find?_eq_none.mp hf r hr) (by simp)
  | some r' =>
    have hid : r'.id = r.id := by simpa using List.find?_some hf
    rw [eq_of_key hids (List.mem_of_find?_eq_some hf) hr hid]
    rfl

/-! ### Phases from which an attempt can still start -/

def Phase.isArmed : Phase → Bool
  | .armed => true
  | _ => false

/-- An attempt can start from here when `should_stop` will read `flag`. -/
def Phase.mayStart (flag : Bool) : Phase → Bool
  | .armed | .transcribing => true
  | .claimed | .walking | .attempting => !flag
  | _ => false

/-- The moves of a worker between phases; `flag` is what it reads when it reads the flag. -/
inductive PhaseStep (cfg : QueueConfig) (row : PlainJobRow) (flag : Bool) : Phase → WorkerMove → Phase → Prop
  | lookup (ok : Bool) : PhaseStep cfg row flag .claimed (.lookup ok) (afterLookup row ok)
  | stopped : flag = true → PhaseStep cfg row flag .walking .poll (.finishing { status := .cancelled })
  | arm : flag = false → PhaseStep cfg row flag .walking .poll .armed
  | skip : PhaseStep cfg row flag .armed .skip .walking
  | attempt : PhaseStep cfg row flag .armed .start .attempting
  | transcribe : PhaseStep cfg row flag .transcribing .start .transcribing
  | settle : PhaseStep cfg row flag .attempting .settle .walking
  | ends (p : Phase) (o : RunOutcome) : p.inRun = true →
      PhaseStep cfg row flag p (.ends o) (afterRun cfg row o)
  | checkFlag (reason : String) (n : ℕ) :
      PhaseStep cfg row flag (.failing reason n) .checkFlag (afterFlag row flag reason n)
  | again (f : Finish) (now : Time) : PhaseStep cfg row flag (.finishing f) (.write now true) (.finishing f)
  | stop (p : Phase) : PhaseStep cfg row flag p .stop .releasing
  | leave (p : Phase) (m : WorkerMove) : m ≠ .start → PhaseStep cfg row flag p m .gone

theorem stepWorker_phase {rows rows' : List PlainJobRow} {w : Worker} {m : WorkerMove} {p : Phase}
    (h : stepWorker cfg rows w m = some (rows', p)) :
    PhaseStep cfg w.row (cancelFlag w.row.id rows) w.phase m p := by
  cases stepWorker_cases h with
  | lookup ok hp => rw [hp]; exact .lookup ok
  | stopped hp hf => rw [hp]; exact .stopped hf
  | arm hp hf => rw [hp]; exact .arm hf
  | skip hp => rw [hp]; exact .skip
  | attempt hp => rw [hp]; exact .attempt
  | transcribe hp => rw [hp]; exact .transcribe
  | settle hp => rw [hp]; exact .settle
  | ends o hp => exact .ends _ o hp
  | checkFlag reason n hp => rw [hp]; exact .checkFlag reason n
  | write f now again hp =>
    rw [hp]
    cases again with
    | true => exact .again f now
    | false => exact .leave _ _ (by simp)
  | stop => exact .stop _
  | requeue | release | die => exact .leave _ _ (by simp)

theorem afterLookup_mayStart {row : PlainJobRow} (hchat : row.capability ≠ "transcription") (ok : Bool) :
    (afterLookup row ok).mayStart true = false := by
  unfold afterLookup
  split_ifs <;> rfl

theorem afterRun_mayStart (row : PlainJobRow) (o : RunOutcome) (flag : Bool) :
    (afterRun cfg row o).mayStart flag = false := by
  cases o <;> rfl

theorem afterFlag_mayStart (row : PlainJobRow) (f : Bool) (reason : String) (n : ℕ) (flag : Bool) :
    (afterFlag row f reason n).mayStart flag = false := by
  unfold afterFlag
  split_ifs <;> rfl

/-- A chat worker that cannot start an attempt does not come to start one. -/
theorem PhaseStep.mayStart {row : PlainJobRow} {f flag : Bool} {p p' : Phase} {m : WorkerMove}
    (h : PhaseStep cfg row f p m p') (hchat : row.capability ≠ "transcription") (hf : flag = true → f = true)
    (hp : p.mayStart flag = false) : p'.mayStart flag = false := by
  cases h with
  | lookup ok =>
    obtain rfl : flag = true := by simpa [Phase.mayStart] using hp
    exact afterLookup_mayStart hchat ok
  | arm hfalse =>
    obtain rfl : flag = true := by simpa [Phase.mayStart] using hp
    rw [hf rfl] at hfalse
    cases hfalse
  | skip | attempt | transcribe => cases hp
  | ends _ o => exact afterRun_mayStart row o flag
  | checkFlag reason n => exact afterFlag_mayStart row f reason n flag
  | settle => exact hp
  | stopped | again | stop | leave => rfl

/-- A worker arms itself only by reading an unset flag. -/
theorem PhaseStep.flag_of_armed {row : PlainJobRow} {f : Bool} {p p' : Phase} {m : WorkerMove}
    (h : PhaseStep cfg row f p m p') (hp : p'.isArmed = true) : f = false := by
  cases h with
  | arm hf => exact hf
  | lookup ok =>
    unfold afterLookup at hp
    split_ifs at hp <;> cases hp
  | ends _ o => cases o <;> cases hp
  | checkFlag reason n =>
    unfold afterFlag at hp
    split_ifs at hp <;> cases hp
  | _ => cases hp

/-- A worker passes the cancel check of its failure only by reading an unset flag. -/
theorem PhaseStep.flag_of_requeuing {row : PlainJobRow} {f : Bool} {p : Phase} {m : WorkerMove}
    (h : PhaseStep cfg row f p m .requeuing) : f = false := by
  generalize hp : Phase.requeuing = p' at h
  cases h with
  | lookup ok =>
    unfold afterLookup at hp
    split_ifs at hp
  | ends _ o => cases o <;> cases hp
  | checkFlag reason n =>
    unfold afterFlag at hp
    split_ifs at hp with hf
    simpa using hf
  | _ => cases hp

/-- A claim took a copy of its row: same job, same capability, and a flag the row still has. -/
def Worker.Copies (w : Worker) (rows : List PlainJobRow) : Prop :=
  ∃ r ∈ rows, r.id = w.row.id ∧ r.capability = w.row.capability ∧
    (w.row.cancelRequested = true → r.cancelRequested = true)

theorem PhaseStep.transcribing {row : PlainJobRow} {f : Bool} {p p' : Phase} {m : WorkerMove}
    (h : PhaseStep cfg row f p m p') (hp' : p' = .transcribing) :
    row.capability = "transcription" ∨ p = .transcribing := by
  cases h with
  | lookup ok =>
    unfold afterLookup at hp'
    split_ifs at hp' with _ _ hcap
    exact .inl hcap
  | transcribe => exact .inr rfl
  | ends _ o => cases o <;> cases hp'
  | checkFlag reason n =>
    unfold afterFlag at hp'
    split_ifs at hp'
  | _ => cases hp'

/-- Every claim is a copy of its row, and only a transcription transcribes. -/
structure QueueSys.Copied (s : QueueSys) : Prop where
  copies : ∀ w ∈ s.workers, w.Copies s.rows
  transcribes : ∀ w ∈ s.workers, w.phase = .transcribing → w.row.capability = "transcription"

theorem QueueSys.copied_init : QueueSys.Copied {} := ⟨by simp, by simp⟩

theorem QueueSys.Copied.step {s s' : QueueSys} {a : QueueAct} (hi : s.Inv) (hc : s.Copied)
    (h : s.step cfg a = some s') : s'.Copied := by
  -- a copy of a row stays one when the row makes a step
  have hkeep : ∀ w : Worker, ∀ r ∈ s.rows, r.id = w.row.id → r.capability = w.row.capability →
      (w.row.cancelRequested = true → r.cancelRequested = true) →
      w.Copies s'.rows := by
    intro w r hr hid hcap hflag
    obtain ⟨r', hr', hstep⟩ := (QueueSys.step_rows hi.ids h).2 r hr
    exact ⟨r', hr', hstep.id_eq.trans hid, hstep.capability_eq.trans hcap,
      fun hw => hstep.cancelRequested_mono (hflag hw)⟩
  constructor
  · intro w' hw'
    obtain ⟨i, hw'⟩ := List.mem_iff_getElem?.mp hw'
    rcases QueueSys.step_workers hi.ids h hw' with hw | ⟨m, w, rfl, hw, hrow, -⟩ | ⟨r, now, hr, -, hrow, -⟩
    · obtain ⟨r, hr, hid, hcap, hflag⟩ := hc.copies w' (List.mem_of_getElem? hw)
      exact hkeep w' r hr hid hcap hflag
    · obtain ⟨r, hr, hid, hcap, hflag⟩ := hc.copies w (List.mem_of_getElem? hw)
      refine hkeep w' r hr ?_ ?_ ?_ <;> rw [hrow] <;> assumption
    · refine hkeep w' r hr ?_ ?_ ?_ <;> rw [hrow]
      · rfl
      · rfl
      · exact id
  · intro w' hw' hp'
    obtain ⟨i, hw'⟩ := List.mem_iff_getElem?.mp hw'
    rcases QueueSys.step_workers hi.ids h hw' with hw | ⟨m, w, rfl, hw, hrow, hstep⟩ | ⟨r, now, -, -, -, hp⟩
    · exact hc.transcribes w' (List.mem_of_getElem? hw) hp'
    · rw [hrow]
      rcases (stepWorker_phase hstep).transcribing hp' with hcap | hp
      · exact hcap
      · exact hc.transcribes w (List.mem_of_getElem? hw) hp
    · rw [hp] at hp'
      cases hp'

theorem QueueSys.Copied.run {s s' : QueueSys} {C : QueueSys → QueueAct → Prop} {as : List QueueAct}
    (hi : s.Inv) (hc : s.Copied) (h : Steps (QueueSys.step cfg) C s as s') : s'.Copied :=
  (h.inv (I := fun t => t.Inv ∧ t.Copied) (fun _ _ _ ht _ hs => ⟨ht.1.step hs, ht.2.step ht.1 hs⟩) ⟨hi, hc⟩).2

/-- The copy a worker took of the row of its job. -/
theorem QueueSys.Copied.of_row {s : QueueSys} (hi : s.Inv) (hc : s.Copied) {r : PlainJobRow} (hr : r ∈ s.rows)
    {w : Worker} (hw : w ∈ s.workers) (hid : w.row.id = r.id) :
    w.row.capability = r.capability ∧ (w.row.cancelRequested = true → r.cancelRequested = true) := by
  obtain ⟨r', hr', hid', hcap, hflag⟩ := hc.copies w hw
  obtain rfl := eq_of_key hi.ids hr' hr (hid'.trans hid)
  exact ⟨hcap.symm, hflag⟩

/-! ### A closed job -/

/-- The claims that started an attempt for a job, in order. -/
def QueueSys.attemptsOf (s : QueueSys) (jobId : ℕ) : List ℕ :=
  (s.started.filter fun x => x.1 = jobId).map (·.2)

theorem attemptsOf_step {s s' : QueueSys} {a : QueueAct} (jobId : ℕ) (h : s.step cfg a = some s') :
    s'.attemptsOf jobId = s.attemptsOf jobId ∨
    ∃ i w, a = .worker i .start ∧ s.workers[i]? = some w ∧ w.row.id = jobId ∧
      (w.phase = .armed ∨ w.phase = .transcribing) ∧
      s'.attemptsOf jobId = s.attemptsOf jobId ++ [i] := by
  rcases QueueSys.step_started h with hst | ⟨i, w, p, rfl, hw, hstep, hst, -⟩
  · exact .inl (by rw [QueueSys.attemptsOf, QueueSys.attemptsOf, hst])
  · by_cases hid : w.row.id = jobId
    · refine .inr ⟨i, w, rfl, hw, hid, ?_, ?_⟩
      · have hph := stepWorker_phase hstep
        generalize w.phase = q at hph ⊢
        cases hph with
        | attempt => exact .inl rfl
        | transcribe => exact .inr rfl
        | leave _ _ hne => exact absurd rfl hne
      · simp [QueueSys.attemptsOf, hst, hid]
    · exact .inl (by simp [QueueSys.attemptsOf, hst, hid])

theorem Phase.mayStart_mono {p : Phase} {f f' : Bool} (hf : f = true → f' = true)
    (hp : p.mayStart f = false) :
    p.mayStart f' = false := by
  cases p <;> simp_all [Phase.mayStart]

/-- The job is closed and none of its workers can start an attempt. -/
structure QueueSys.Shut (jobId : ℕ) (s : QueueSys) : Prop where
  inv : s.Inv
  copied : s.Copied
  row : ∃ r ∈ s.rows, r.id = jobId ∧ r.status.terminal = true ∧ r.capability ≠ "transcription" ∧
    ∀ w ∈ s.workers, w.row.id = jobId → w.phase.mayStart r.cancelRequested = false

theorem QueueSys.Shut.step {s s' : QueueSys} {a : QueueAct} {jobId : ℕ} (hs : s.Shut jobId)
    (h : s.step cfg a = some s') : s'.Shut jobId := by
  obtain ⟨hi, hc, r, hr, rfl, hterm, hchat, hphase⟩ := hs
  obtain ⟨r', hr', hstep⟩ := (QueueSys.step_rows hi.ids h).2 r hr
  have hst : r'.status = r.status := hstep.status_of_terminal (hi.rows r hr) hterm
  refine ⟨hi.step h, hc.step hi h, r', hr', hstep.id_eq, hst ▸ hterm, hstep.capability_eq ▸ hchat, ?_⟩
  intro w' hw' hid
  refine Phase.mayStart_mono hstep.cancelRequested_mono ?_
  obtain ⟨i, hw'⟩ := List.mem_iff_getElem?.mp hw'
  rcases QueueSys.step_workers hi.ids h hw' with hw | ⟨m, w, rfl, hw, hrow, hws⟩ |
    ⟨r₀, now, hr₀, hpend, hrow, -⟩
  · exact hphase w' (List.mem_of_getElem? hw) hid
  · have hmem := List.mem_of_getElem? hw
    rw [hrow] at hid
    refine (stepWorker_phase hws).mayStart ?_ ?_ (hphase w hmem hid)
    · rw [(hc.of_row hi hr hmem hid).1]
      exact hchat
    · intro hf
      rw [hid, cancelFlag_eq hi.ids hr, hf]
  · -- a closed job is not claimed
    rw [hrow] at hid
    obtain rfl := eq_of_key hi.ids hr₀ hr hid
    rw [hpend] at hterm
    cases hterm

theorem QueueSys.Shut.attempts_step {s s' : QueueSys} {a : QueueAct} {jobId : ℕ} (hs : s.Shut jobId)
    (h : s.step cfg a = some s') : s'.attemptsOf jobId = s.attemptsOf jobId := by
  obtain ⟨-, -, r, -, -, -, -, hphase⟩ := hs
  rcases attemptsOf_step jobId h with heq | ⟨i, w, -, hw, hid, hp, -⟩
  · exact heq
  · have := hphase w (List.mem_of_getElem? hw) hid
    rcases hp with hp | hp <;> rw [hp] at this <;> cases this

theorem QueueSys.Shut.run {s u : QueueSys} {jobId : ℕ} {bs : List QueueAct} (hs : s.Shut jobId)
    (h : Steps (QueueSys.step cfg) Free s bs u) : u.attemptsOf jobId = s.attemptsOf jobId := by
  refine (h.inv (I := fun t => t.Shut jobId ∧ t.attemptsOf jobId = s.attemptsOf jobId) ?_ ⟨hs, rfl⟩).2
  rintro t a v ⟨ht, heq⟩ - hst
  exact ⟨ht.step hst, (ht.attempts_step hst).trans heq⟩

/-! ### A flagged job -/

/-- The state `s` is the one the cancel found.  Since then the job is flagged; whoever is armed for it, or
past the cancel check of its failure, was so already; and at most one of the armed has started. -/
structure QueueSys.Flagged (jobId : ℕ) (s t : QueueSys) : Prop where
  inv : t.Inv
  copied : t.Copied
  row : ∃ r ∈ t.rows, r.id = jobId ∧ r.cancelRequested = true ∧ r.capability ≠ "transcription"
  armed : ∀ (i : ℕ) (w : Worker), t.workers[i]? = some w → w.row.id = jobId → w.phase.isArmed = true →
    s.workers[i]? = some w
  requeuing : ∀ (i : ℕ) (w : Worker), t.workers[i]? = some w → w.row.id = jobId → w.phase = .requeuing →
    s.workers[i]? = some w
  attempts : t.attemptsOf jobId = s.attemptsOf jobId ∨
    ∃ i w, s.workers[i]? = some w ∧ w.phase.isArmed = true ∧ t.attemptsOf jobId = s.attemptsOf jobId ++ [i] ∧
      ∀ v ∈ t.workers, v.row.id = jobId → v.phase.isArmed = false

/-- At most one worker of the job is between a `should_stop` that returned `False` and its attempt. -/
def QueueSys.OneArmed (s : QueueSys) (jobId : ℕ) : Prop :=
  ∀ (i k : ℕ) (w v : Worker), s.workers[i]? = some w → s.workers[k]? = some v → w.row.id = jobId →
    v.row.id = jobId → w.phase.isArmed = true → v.phase.isArmed = true → i = k

theorem QueueSys.Flagged.step {s t t' : QueueSys} {a : QueueAct} {jobId : ℕ} (hone : s.OneArmed jobId)
    (hf : QueueSys.Flagged jobId s t) (h : t.step cfg a = some t') : QueueSys.Flagged jobId s t' := by
  obtain ⟨hi, hc, ⟨r, hr, rfl, hflag, hchat⟩, harmed, hreq, hatt⟩ := hf
  obtain ⟨r', hr', hstep⟩ := (QueueSys.step_rows hi.ids h).2 r hr
  have hread : cancelFlag r.id t.rows = true := by rw [cancelFlag_eq hi.ids hr, hflag]
  -- a worker of the job that moved is neither newly armed nor newly past its cancel check
  have hmoved : ∀ (i : ℕ) (w' : Worker), t'.workers[i]? = some w' → w'.row.id = r.id →
      (w'.phase.isArmed = true ∨ w'.phase = .requeuing) → t.workers[i]? = some w' := by
    intro i w' hw' hid hp
    rcases QueueSys.step_workers hi.ids h hw' with hw | ⟨m, w, rfl, hw, hrow, hws⟩ | ⟨r₀, now, -, -, -, hcl⟩
    · exact hw
    · have hph := stepWorker_phase hws
      rw [← hrow, hid, hread] at hph
      rcases hp with hp | hp
      · cases hph.flag_of_armed hp
      · rw [hp] at hph
        cases hph.flag_of_requeuing
    · rw [hcl] at hp
      rcases hp with hp | hp <;> cases hp
  refine ⟨hi.step h, hc.step hi h,
    ⟨r', hr', hstep.id_eq, hstep.cancelRequested_mono hflag, hstep.capability_eq ▸ hchat⟩, ?_, ?_, ?_⟩
  · intro i w hw hid hp
    exact harmed i w (hmoved i w hw hid (.inl hp)) hid hp
  · intro i w hw hid hp
    exact hreq i w (hmoved i w hw hid (.inr hp)) hid hp
  · rcases attemptsOf_step r.id h with heq | ⟨i, w, rfl, hw, hid, hp, heq⟩
    · rw [heq]
      refine hatt.imp id ?_
      rintro ⟨i, w, hw, hp, hst, hnone⟩
      refine ⟨i, w, hw, hp, hst, fun v hv hid => ?_⟩
      obtain ⟨k, hv⟩ := List.mem_iff_getElem?.mp hv
      by_contra hne
      have hk := hmoved k v hv hid (.inl (Bool.eq_true_of_not_eq_false hne))
      exact hne (hnone v (List.mem_of_getElem? hk) hid)
    · have hmem := List.mem_of_getElem? hw
      have hp : w.phase = .armed := by
        refine hp.resolve_right fun htr => hchat ?_
        rw [← (hc.of_row hi hr hmem hid).1]
        exact hc.transcribes w hmem htr
      have harm : w.phase.isArmed = true := by rw [hp]; rfl
      rcases hatt with hatt | ⟨_, _, _, _, _, hnone⟩
      swap
      · rw [hnone w hmem hid] at harm
        cases harm
      refine .inr ⟨i, w, harmed i w hw hid harm, harm, heq.trans (by rw [hatt]), fun v hv hvid => ?_⟩
      -- another armed worker would have been armed beside `w` when the cancel came
      by_contra hne
      obtain ⟨k, hv⟩ := List.mem_iff_getElem?.mp hv
      have hva := Bool.eq_true_of_not_eq_false hne
      have hk := harmed k v (hmoved k v hv hvid (.inl hva)) hvid hva
      obtain rfl := hone i k w v (harmed i w hw hid harm) hk hid hvid harm hva
      obtain ⟨w₁, p, hw₁, hws, hset, -⟩ := QueueSys.step_worker h
      obtain rfl : w = w₁ := Option.some.inj (hw.symm.trans hw₁)
      have hlt : i < t.workers.length := (List.getElem?_eq_some_iff.mp hw).1
      rw [hset, List.getElem?_set_self hlt] at hv
      obtain rfl := Option.some.inj hv
      have hph := stepWorker_phase hws
      rw [hid, hread] at hph
      cases hph.flag_of_armed hva

theorem QueueSys.Flagged.run {s t u : QueueSys} {jobId : ℕ} {bs : List QueueAct} (hone : s.OneArmed jobId)
    (hf : QueueSys.Flagged jobId s t) (h : Steps (QueueSys.step cfg) Free t bs u) :
    QueueSys.Flagged jobId s u :=
  h.inv (I := QueueSys.Flagged jobId s) (fun _ _ _ ht _ hst => ht.step hone hst) hf

/-! ### A flagged job that went back to the queue -/

/-- The job has no answer: it is open, cancelled, or failed without a run. -/
def Unserved (r : PlainJobRow) : Prop :=
  r.status = .pending ∨ r.status = .running ∨ r.status = .cancelled ∨
    (r.status = .error ∧ (r.errorMessage = some "project no longer exists" ∨
      r.errorMessage = some "gave up after repeated worker deaths mid-run"))

/-- An execution of a job that was flagged before its claim, which ends without a run. -/
def Phase.Dropping (row : PlainJobRow) : Phase → Prop
  | .claimed => row.cancelRequested = true
  | .finishing f => f.status = .cancelled ∨
      (f.status = .error ∧ f.errorMessage = some "project no longer exists")
  | .releasing | .gone => True
  | _ => False

theorem PhaseStep.dropping {row : PlainJobRow} {f : Bool} {p p' : Phase} {m : WorkerMove}
    (h : PhaseStep cfg row f p m p') (hp : p.Dropping row) : p'.Dropping row := by
  cases h with
  | lookup ok =>
    unfold afterLookup
    split_ifs with h₁ h₂ h₃
    · exact .inr ⟨rfl, rfl⟩
    · exact .inl rfl
    · exact absurd hp h₂
    · exact absurd hp h₂
  | again f => exact hp
  | stop | leave => trivial
  | ends p o hrun => cases p <;> first | exact hp.elim | exact absurd hrun (by simp [Phase.inRun])
  | _ => cases hp

/-- The job is flagged and unserved, and the claim its row carries, if any, drops it. -/
structure QueueSys.Dropped (jobId : ℕ) (s : QueueSys) : Prop where
  inv : s.Inv
  row : ∃ r ∈ s.rows, r.id = jobId ∧ r.cancelRequested = true ∧ Unserved r ∧
    ∀ w ∈ s.workers, w.row.id = jobId → r.startedAt = some w.stamp → w.phase.Dropping w.row

theorem RowStep.unserved {s : QueueSys} {r r' : PlainJobRow} (h : RowStep cfg s r r') (hr : Unserved r)
    (hw : ∀ w ∈ s.workers, w.row.id = r.id → r.startedAt = some w.stamp → w.phase.Dropping w.row) :
    Unserved r' := by
  cases h with
  | same => exact hr
  | claim now => exact .inr (.inl rfl)
  | stale now =>
    unfold staleRow
    by_cases hgave : cfg.maxRetries < r.retryCount + 1
    · exact .inr (.inr (.inr ⟨by simp [hgave], .inr (by simp [hgave])⟩))
    · exact .inl (by simp [hgave])
  | cancel now =>
    unfold cancelRow
    split
    · exact .inr (.inr (.inl rfl))
    · rename_i hst
      exact .inr (.inl hst)
    · exact hr
  | finish w f now hmem hp hid hst =>
    have hdrop := hw w hmem hid hst
    rw [hp] at hdrop
    rcases hdrop with hc | ⟨he, hm⟩
    · exact .inr (.inr (.inl hc))
    · exact .inr (.inr (.inr ⟨he, .inl hm⟩))
  | requeue => exact .inl rfl
  | release => exact .inl rfl

theorem QueueSys.Dropped.step {s s' : QueueSys} {a : QueueAct} {jobId : ℕ} (hd : s.Dropped jobId)
    (h : s.step cfg a = some s') : s'.Dropped jobId := by
  obtain ⟨hi, r, hr, rfl, hflag, huns, hdrop⟩ := hd
  obtain ⟨r', hr', hstep⟩ := (QueueSys.step_rows hi.ids h).2 r hr
  refine ⟨hi.step h, r', hr', hstep.id_eq, hstep.cancelRequested_mono hflag, hstep.unserved huns hdrop, ?_⟩
  intro w' hw' hid hst
  obtain ⟨i, hw'⟩ := List.mem_iff_getElem?.mp hw'
  -- a claim that was there before carries the stamp of `r'` only if it carried that of `r`
  have hold : ∀ w ∈ s.workers, w.row.id = r.id → r'.startedAt = some w.stamp →
    r.startedAt = some w.stamp := by
    intro w hw hid hst
    cases hstep with
    | same => exact hst
    | claim now _ hnew => exact absurd (Option.some.inj hst).symm (hnew w hw hid)
    | stale | requeue | release => cases hst
    | cancel now => rwa [cancelRow_startedAt] at hst
    | finish => exact hst
  rcases QueueSys.step_workers hi.ids h hw' with hw | ⟨m, w, rfl, hw, hrow, hws⟩ | ⟨r₀, now, hr₀, -, hrow, hp⟩
  · have hmem := List.mem_of_getElem? hw
    exact hdrop w' hmem hid (hold w' hmem hid hst)
  · have hmem := List.mem_of_getElem? hw
    have hstamp : w'.stamp = w.stamp := Option.some.inj (by rw [← w'.stamped, hrow, w.stamped])
    rw [hrow] at hid
    rw [hstamp] at hst
    rw [hrow]
    exact (stepWorker_phase hws).dropping (hdrop w hmem hid (hold w hmem hid hst))
  · rw [hp, hrow]
    rw [hrow] at hid
    obtain rfl := eq_of_key hi.ids hr₀ hr hid
    exact hflag

theorem QueueSys.Dropped.run {s u : QueueSys} {jobId : ℕ} {bs : List QueueAct} (hd : s.Dropped jobId)
    (h : Steps (QueueSys.step cfg) Free s bs u) {r : PlainJobRow} (hr : r ∈ u.rows) (hid : r.id = jobId) :
    Unserved r := by
  obtain ⟨hi, r', hr', hid', -, huns, -⟩ :=
    h.inv (I := QueueSys.Dropped jobId) (fun _ _ _ ht _ hst => ht.step hst) hd
  obtain rfl := eq_of_key hi.ids hr hr' (hid.trans hid'.symm)
  exact huns

/-! ### The cancel -/

/-- The state after `cancel_job` by the job's own project. -/
def QueueSys.cancelled (s : QueueSys) (now : Time) (r : PlainJobRow) : QueueSys :=
  { s with rows := (cancelPlain now r.id r.projectId s.rows).1 }

/-- What a cancel that found `s` and left `s'` is to mean: after `cancelled` no attempt starts; after
`cancel_requested` at most one starts and it was under way, no failure passes its cancel check, and once
the job is back in the queue it is never served. -/
def Honoured (cfg : QueueConfig) (jobId : ℕ) (s s' : QueueSys) : CancelState → Prop
  | .cancelled => ∀ bs u, Steps (QueueSys.step cfg) Free s' bs u → u.attemptsOf jobId = s.attemptsOf jobId
  | .cancelRequested => ∀ bs u, Steps (QueueSys.step cfg) Free s' bs u →
      (u.attemptsOf jobId = s.attemptsOf jobId ∨ ∃ (i : ℕ) (w : Worker), s.workers[i]? = some w ∧
        w.phase.isArmed = true ∧ u.attemptsOf jobId = s.attemptsOf jobId ++ [i]) ∧
      (∀ (i : ℕ) (w : Worker), u.workers[i]? = some w → w.row.id = jobId → w.phase = .requeuing →
        s.workers[i]? = some w) ∧
      (∀ r ∈ u.rows, r.id = jobId → r.status = .pending →
        ∀ cs v, Steps (QueueSys.step cfg) Free u cs v → ∀ r' ∈ v.rows, r'.id = jobId → Unserved r')
  | .alreadyTerminal => True

/-- The condition, on the state the cancel finds: a job closed at once has no worker left that can start
an attempt; a flagged one has at most one worker about to start one. -/
def CancelSafe (s : QueueSys) (r : PlainJobRow) : CancelState → Prop
  | .cancelled => ∀ w ∈ s.workers, w.row.id = r.id → w.phase.mayStart r.cancelRequested = false
  | .cancelRequested => s.OneArmed r.id
  | .alreadyTerminal => True

theorem cancelPlain_reply {rows : List PlainJobRow} (hids : (rows.map (·.id)).Nodup) {r : PlainJobRow}
    (hr : r ∈ rows) (now : Time) :
    (cancelPlain now r.id r.projectId rows).2 = some (cancelState r.status) ∧
      cancelRow now r ∈ (cancelPlain now r.id r.projectId rows).1 := by
  constructor
  · simp only [cancelPlain]
    cases hf : rows.find? (fun r' => decide (r'.id = r.id) && decide (r'.projectId = r.projectId)) with
    | none => exact absurd (List.find?_eq_none.mp hf r hr) (by simp)
    | some r' =>
      have hid : r'.id = r.id := by
        have := List.find?_some hf
        simp only [Bool.and_eq_true, decide_eq_true_eq] at this
        exact this.1
      rw [eq_of_key hids (List.mem_of_find?_eq_some hf) hr hid]
      rfl
  · exact mem_updateWhere.mpr (.inr ⟨r, hr, by simp, rfl⟩)

theorem cancelled_inv (cfg : QueueConfig) {s : QueueSys} (hi : s.Inv) (hc : s.Copied) (now : Time)
    (r : PlainJobRow) : (s.cancelled now r).Inv ∧ (s.cancelled now r).Copied := by
  have hstep : s.step cfg (.cancel now r.id r.projectId) = some (s.cancelled now r) := rfl
  exact ⟨hi.step hstep, hc.step hi hstep⟩

section Cancel

variable {s : QueueSys} {r : PlainJobRow}

theorem honoured_cancelled_of_safe (hi : s.Inv) (hc : s.Copied) (hr : r ∈ s.rows)
    (hchat : r.capability ≠ "transcription") (now : Time) (hst : r.status = .pending)
    (hsafe : CancelSafe s r .cancelled) :
    Honoured cfg r.id s (s.cancelled now r) .cancelled := by
  intro bs u hrun
  obtain ⟨hi', hc'⟩ := cancelled_inv cfg hi hc now r
  change u.attemptsOf r.id = (s.cancelled now r).attemptsOf r.id
  refine QueueSys.Shut.run ⟨hi', hc', cancelRow now r, (cancelPlain_reply hi.ids hr now).2, ?_⟩ hrun
  have hrow : cancelRow now r =
      { r with status := .cancelled, completedAt := some now, request := stripAudio r.request } := by
    simp [cancelRow, hst]
  rw [hrow]
  exact ⟨rfl, rfl, hchat, hsafe⟩

theorem honoured_requested_of_safe (hi : s.Inv) (hc : s.Copied) (hr : r ∈ s.rows)
    (hchat : r.capability ≠ "transcription") (now : Time) (hst : r.status = .running)
    (hsafe : CancelSafe s r .cancelRequested) :
    Honoured cfg r.id s (s.cancelled now r) .cancelRequested := by
  intro bs u hrun
  obtain ⟨hi', hc'⟩ := cancelled_inv cfg hi hc now r
  have hrow : cancelRow now r = { r with cancelRequested := true } := by simp [cancelRow, hst]
  have hf : QueueSys.Flagged r.id s (s.cancelled now r) :=
    ⟨hi', hc', ⟨cancelRow now r, (cancelPlain_reply hi.ids hr now).2, by rw [hrow]; exact ⟨rfl, rfl, hchat⟩⟩,
      fun _ _ hw _ _ => hw, fun _ _ hw _ _ => hw, .inl rfl⟩
  obtain ⟨hiu, -, ⟨r₁, hr₁, hid₁, hflag, -⟩, -, hreq, hatt⟩ := hf.run hsafe hrun
  refine ⟨?_, hreq, ?_⟩
  · rcases hatt with heq | ⟨i, w, hw, hp, heq, -⟩
    · exact .inl heq
    · exact .inr ⟨i, w, hw, hp, heq⟩
  · intro r₂ hr₂ hid₂ hpend cs v hv r' hr' hid'
    obtain rfl := eq_of_key hiu.ids hr₁ hr₂ (hid₁.trans hid₂.symm)
    refine QueueSys.Dropped.run ⟨hiu, r₁, hr₁, hid₁, hflag, .inl hpend, fun w _ _ hstamp => ?_⟩ hv hr' hid'
    rw [(hiu.rows r₁ hr₁).pending hpend] at hstamp
    cases hstamp

/-! The other direction: where the condition fails, an attempt too many can start. -/

/-- The state after a move of a worker that writes nothing. -/
def QueueSys.moved (t : QueueSys) (i : ℕ) (w : Worker) (m : WorkerMove) (p : Phase) : QueueSys :=
  ⟨t.rows, t.workers.set i (w.setPhase p), t.started ++ startedBy i w m⟩

/-- A move of a worker that is enabled and writes nothing is a step of the system. -/
theorem worker_step {t : QueueSys} {i : ℕ} {w : Worker} {m : WorkerMove} {p : Phase}
    (hw : t.workers[i]? = some w) (hm : stepWorker cfg t.rows w m = some (t.rows, p)) :
    t.step cfg (.worker i m) = some (t.moved i w m p) := by
  simp only [QueueSys.step, hw, hm, QueueSys.moved]

theorem getElem?_moved {t : QueueSys} {i : ℕ} {w : Worker} (hw : t.workers[i]? = some w) (m : WorkerMove)
    (p : Phase) : (t.moved i w m p).workers[i]? = some (w.setPhase p) :=
  List.getElem?_set_self (List.getElem?_eq_some_iff.mp hw).1

theorem attemptsOf_moved {i : ℕ} {w : Worker} {m : WorkerMove} (hm : startedBy i w m = []) (t : QueueSys)
    (p : Phase) (jobId : ℕ) : (t.moved i w m p).attemptsOf jobId = t.attemptsOf jobId := by
  simp [QueueSys.attemptsOf, QueueSys.moved, hm]

theorem start_of_armed (cfg : QueueConfig) {t : QueueSys} {i : ℕ} {w : Worker} (hw : t.workers[i]? = some w)
    (hp : w.phase = .armed) :
    ∃ u, Steps (QueueSys.step cfg) Free t [.worker i .start] u ∧
      u.attemptsOf w.row.id = t.attemptsOf w.row.id ++ [i] ∧
      ∀ k, k ≠ i → u.workers[k]? = t.workers[k]? := by
  have hstart : stepWorker cfg t.rows w .start = some (t.rows, .attempting) := by simp [stepWorker, hp]
  refine ⟨_, Steps.single trivial (worker_step hw hstart), ?_, ?_⟩
  · simp [QueueSys.attemptsOf, QueueSys.moved, startedBy]
  · intro k hk
    simp [QueueSys.moved, Ne.symm hk]

theorem start_of_walking (cfg : QueueConfig) {t : QueueSys} {i : ℕ} {w : Worker} (hw : t.workers[i]? = some w)
    (hp : w.phase = .walking) (hf : cancelFlag w.row.id t.rows = false) :
    ∃ bs u, Steps (QueueSys.step cfg) Free t bs u ∧
      u.attemptsOf w.row.id = t.attemptsOf w.row.id ++ [i] := by
  have hpoll : stepWorker cfg t.rows w .poll = some (t.rows, .armed) := by simp [stepWorker, hp, hf]
  obtain ⟨u, hu, hatt, -⟩ := start_of_armed cfg (getElem?_moved hw .poll .armed) rfl
  rw [attemptsOf_moved rfl] at hatt
  exact ⟨_, u, (Steps.single trivial (worker_step hw hpoll)).trans hu, hatt⟩

theorem start_of_mayStart (cfg : QueueConfig) {t : QueueSys} {i : ℕ} {w : Worker}
    (hw : t.workers[i]? = some w) (hchat : w.row.capability ≠ "transcription")
    (hcopy : w.row.cancelRequested = true → cancelFlag w.row.id t.rows = true)
    (htr : w.phase ≠ .transcribing) (hp : w.phase.mayStart (cancelFlag w.row.id t.rows) = true) :
    ∃ bs u, Steps (QueueSys.step cfg) Free t bs u ∧
      u.attemptsOf w.row.id = t.attemptsOf w.row.id ++ [i] := by
  cases hph : w.phase with
  | armed =>
    obtain ⟨u, hu, hatt, -⟩ := start_of_armed cfg hw hph
    exact ⟨_, u, hu, hatt⟩
  | walking => exact start_of_walking cfg hw hph (by simpa [hph, Phase.mayStart] using hp)
  | claimed =>
    have hf : cancelFlag w.row.id t.rows = false := by simpa [hph, Phase.mayStart] using hp
    have hnew : w.row.cancelRequested = false := by
      by_contra hne
      rw [hcopy (Bool.eq_true_of_not_eq_false hne)] at hf
      cases hf
    have hlook : stepWorker cfg t.rows w (.lookup true) = some (t.rows, .walking) := by
      simp [stepWorker, hph, afterLookup, hnew, hchat]
    obtain ⟨bs, u, hu, hatt⟩ := start_of_walking cfg (getElem?_moved hw (.lookup true) .walking) rfl hf
    rw [attemptsOf_moved rfl] at hatt
    exact ⟨_, u, (Steps.single trivial (worker_step hw hlook)).trans hu, hatt⟩
  | attempting =>
    have hf : cancelFlag w.row.id t.rows = false := by simpa [hph, Phase.mayStart] using hp
    have hset : stepWorker cfg t.rows w .settle = some (t.rows, .walking) := by simp [stepWorker, hph]
    obtain ⟨bs, u, hu, hatt⟩ := start_of_walking cfg (getElem?_moved hw .settle .walking) rfl hf
    rw [attemptsOf_moved rfl] at hatt
    exact ⟨_, u, (Steps.single trivial (worker_step hw hset)).trans hu, hatt⟩
  | transcribing => exact absurd hph htr
  | finishing | failing | requeuing | releasing | gone => rw [hph] at hp; cases hp

theorem safe_of_honoured_cancelled (hi : s.Inv) (hc : s.Copied) (hr : r ∈ s.rows)
    (hchat : r.capability ≠ "transcription") (now : Time) (hst : r.status = .pending)
    (hh : Honoured cfg r.id s (s.cancelled now r) .cancelled) : CancelSafe s r .cancelled := by
  intro w hmem hid
  by_contra hne
  have hmay := Bool.eq_true_of_not_eq_false hne
  obtain ⟨i, hw⟩ := List.mem_iff_getElem?.mp hmem
  obtain ⟨hi', hc'⟩ := cancelled_inv cfg hi hc now r
  have hrow : (cancelRow now r).cancelRequested = r.cancelRequested := by simp [cancelRow, hst]
  have hflag : cancelFlag w.row.id (s.cancelled now r).rows = r.cancelRequested := by
    rw [hid, ← cancelRow_id now r, cancelFlag_eq hi'.ids (cancelPlain_reply hi.ids hr now).2, hrow]
  obtain ⟨hcap, hcopy⟩ := hc.of_row hi hr hmem hid
  obtain ⟨bs, u, hu, hatt⟩ := start_of_mayStart cfg (t := s.cancelled now r) hw (hcap ▸ hchat)
    (by rw [hflag]; exact hcopy) (fun htr => hchat (hcap ▸ hc.transcribes w hmem htr))
    (by rw [hflag]; exact hmay)
  have hsame := hh bs u hu
  rw [hid] at hatt
  rw [hatt] at hsame
  exact absurd hsame (by simp [QueueSys.attemptsOf, QueueSys.cancelled])

theorem safe_of_honoured_requested (now : Time)
    (hh : Honoured cfg r.id s (s.cancelled now r) .cancelRequested) : CancelSafe s r .cancelRequested := by
  intro i k w v hw hv hid hid' hp hp'
  by_contra hik
  have harmed : ∀ x : Worker, x.phase.isArmed = true → x.phase = .armed := by
    intro x hx
    cases hph : x.phase <;> simp_all [Phase.isArmed]
  obtain ⟨t, ht, hatt, hrest⟩ := start_of_armed cfg (t := s.cancelled now r) hw (harmed w hp)
  obtain ⟨u, hu, hatt', -⟩ := start_of_armed cfg ((hrest k (Ne.symm hik)).trans hv) (harmed v hp')
  rw [hid] at hatt
  rw [hid', hatt] at hatt'
  -- two attempts more than the cancel found
  have hlen : (u.attemptsOf r.id).length = (s.attemptsOf r.id).length + 2 := by
    rw [hatt']
    simp [QueueSys.attemptsOf, QueueSys.cancelled]
  rcases (hh _ u (ht.trans hu)).1 with heq | ⟨j, x, -, -, heq⟩
  · rw [heq] at hlen
    omega
  · rw [heq, List.length_append, List.length_singleton] at hlen
    omega

end Cancel

/-- **A cancel is honoured exactly when no superseded worker is on its way.**  In every reachable state and
for every chat job in it: the cancel of its project answers by its status, and it is honoured in every
continuation if and only if, as it commits, a pending job has no worker that can still start an attempt
and a running one at most one worker about to. -/
theorem cancel_honoured_iff (cfg : QueueConfig) {as : List QueueAct} {s : QueueSys}
    (h : Steps (QueueSys.step cfg) Free {} as s) {r : PlainJobRow} (hr : r ∈ s.rows)
    (hchat : r.capability ≠ "transcription") (now : Time) :
    (cancelPlain now r.id r.projectId s.rows).2 = some (cancelState r.status) ∧
    (Honoured cfg r.id s (s.cancelled now r) (cancelState r.status) ↔
      CancelSafe s r (cancelState r.status)) := by
  have hi : s.Inv := QueueSys.inv_init.run h
  have hc : s.Copied := QueueSys.copied_init.run QueueSys.inv_init h
  refine ⟨(cancelPlain_reply hi.ids hr now).1, ?_⟩
  cases hst : r.status with
  | pending =>
    exact ⟨safe_of_honoured_cancelled hi hc hr hchat now hst,
      honoured_cancelled_of_safe hi hc hr hchat now hst⟩
  | running =>
    exact ⟨safe_of_honoured_requested now, honoured_requested_of_safe hi hc hr hchat now hst⟩
  | done | error | cancelled => exact Iff.rfl

/-- A job whose first worker is walking. -/
def claimedJob : List QueueAct := [.submit .sample, .claim 0 24 [], .worker 0 (.lookup true)]

/-- The row of the first job. -/
def QueueSys.firstRow (s : QueueSys) : PlainJobRow := s.rows.headD NewJob.sample.row

/-- The cancel of a running job with its one worker still walking is honoured. -/
theorem cancel_honoured_of_claimed_job :
    ∃ s, Steps (QueueSys.step {}) Free {} claimedJob s ∧ s.firstRow.status = .running ∧
      Honoured {} s.firstRow.id s (s.cancelled 1 s.firstRow) .cancelRequested := by
  have hrun : (execAll (QueueSys.step {}) {} claimedJob).map
      (fun s => (s.rows.length, s.firstRow.status, s.firstRow.capability, s.workers.length)) =
      some (1, .running, "chat:fast", 1) := by decide
  obtain ⟨s, hs, hobs⟩ := steps_of_observed hrun
  obtain ⟨hlen, hst, hcap, hws⟩ : s.rows.length = 1 ∧ s.firstRow.status = .running ∧
      s.firstRow.capability = "chat:fast" ∧ s.workers.length = 1 := by simpa using hobs
  have hmem : s.firstRow ∈ s.rows := by
    obtain ⟨r, hr⟩ := List.length_eq_one_iff.mp hlen
    simp [QueueSys.firstRow, hr]
  have hiff := (cancel_honoured_iff {} hs hmem (by rw [hcap]; decide) 1).2
  rw [hst] at hiff
  refine ⟨s, hs, hst, hiff.mpr ?_⟩
  intro i k w v hw hv _ _ _ _
  have hi := (List.getElem?_eq_some_iff.mp hw).1
  have hk := (List.getElem?_eq_some_iff.mp hv).1
  omega

/-- The worker stalls past the stale window, the job goes back to the queue and the client cancels it. -/
def supersededJob : List QueueAct := claimedJob ++ [.stale (seconds 1501)]

/-- The cancel of the requeued job answers `cancelled`, and the superseded worker still starts an
attempt: closing the row left the flag it reads unset. -/
theorem cancelled_job_attempted :
    ∃ s u, Steps (QueueSys.step {}) Free {} supersededJob s ∧
      (cancelPlain (seconds 1502) 1 1 s.rows).2 = some .cancelled ∧
      Steps (QueueSys.step {}) Free { s with rows := (cancelPlain (seconds 1502) 1 1 s.rows).1 }
        [.worker 0 .poll, .worker 0 .start] u ∧
      s.attemptsOf 1 = [] ∧ u.attemptsOf 1 = [0] := by
  have hrun : (execAll (QueueSys.step {}) {} supersededJob).bind (fun s =>
      (execAll (QueueSys.step {}) { s with rows := (cancelPlain (seconds 1502) 1 1 s.rows).1 }
        [.worker 0 .poll, .worker 0 .start]).map fun u =>
          ((cancelPlain (seconds 1502) 1 1 s.rows).2, s.attemptsOf 1, u.attemptsOf 1)) =
      some (some .cancelled, [], [0]) := by decide
  obtain ⟨s, u, hs, hu, hobs⟩ := steps_of_observed_then
    (g := fun s : QueueSys => { s with rows := (cancelPlain (seconds 1502) 1 1 s.rows).1 }) hrun
  obtain ⟨hrep, hbefore, hafter⟩ : _ ∧ _ ∧ _ := by simpa using hobs
  exact ⟨s, u, hs, hrep, hu, hbefore, hafter⟩

end Broker.Services
