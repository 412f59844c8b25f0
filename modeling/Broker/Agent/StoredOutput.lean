import Broker.Agent.EventLog
import Broker.Agent.Redact

/-!
# Broker.Agent.StoredOutput — what a closed subscription job stores as its result

`append_event` gates the answer of a client job twice, before and after redaction, and stores the redacted
text.  No other writer of the row touches its result, and a row never loses one, so in every interleaving a
row that is done holds a text that passed the gate (`stored_result_passes`).
-/

namespace Broker.Agent

open Broker.Lib Broker.Db

variable {env : Env} {cfg : ExecConfig}

/-! ### The commit of one event -/

/-- The text passes the gate of the contract, if there is one. -/
def Passes (env : Env) (contract : Option ClientJob) (text : String) : Prop :=
  ∀ c, contract = some c → env.outputProblem text c.responseFormat = none

/-- An answer that is still a completion behind the gate passes it after redaction. -/
theorem gatedEvent_completed {ev : AnyEvent} {contract : Option ClientJob} {text : String}
    {files : List FileRef} (h : gatedEvent env ev contract = .runCompleted text files) :
    Passes env contract (env.redactFinalText text (contract.bind (·.responseFormat))) := by
  rintro c rfl
  unfold gatedEvent at h
  split at h
  · rename_i text' files' c' _ heq
    obtain rfl := Option.some.inj heq
    split at h
    · cases h
    · rename_i hnone
      obtain ⟨rfl, rfl⟩ := by simpa using h
      exact (Option.or_eq_none_iff.mp hnone).2
  · rename_i hne
    subst h
    exact absurd rfl (hne text files c rfl)

/-- What a commit does to the request and the result of the row it loaded. -/
inductive ResultChange (env : Env) (loaded new : AgentJobRow) : Prop where
  | kept (hresult : new.resultText = loaded.resultText) (hstatus : new.status = .done → loaded.status = .done)
  | stored {text : String} (hresult : new.resultText = some text)
      (hpass : Passes env loaded.request.clientJob text)

theorem appendJob_contract (now : Time) (run : AgentRunRow) (job : AgentJobRow) (ev : AnyEvent) :
    (appendJob env now run job ev).request.clientJob = job.request.clientJob := by
  unfold appendJob closeJob
  dsimp only
  split_ifs <;> rfl

/-- An `append_event` keeps the result of the row, or stores a text that passed the gate. -/
theorem appendJob_result (now : Time) (run : AgentRunRow) (job : AgentJobRow) (ev : AnyEvent) :
    ResultChange env job (appendJob env now run job (gatedEvent env ev job.request.clientJob)) := by
  unfold appendJob
  by_cases hterm : (gatedEvent env ev job.request.clientJob).type.terminal = true
  · rw [if_pos hterm]
    cases hev : gatedEvent env ev job.request.clientJob with
    | runCompleted text files => exact .stored rfl (gatedEvent_completed hev)
    | _ =>
      refine .kept rfl fun hdone => ?_
      simp [closeJob, jobStatus, AnyEvent.type] at hdone
  · rw [if_neg hterm]
    exact .kept rfl fun hdone => hdone

/-! ### The row -/

/-- The row keeps its contract, its result passed the gate, and once it is done it has one. -/
structure ResultOk (env : Env) (contract : Option ClientJob) (job : AgentJobRow) : Prop where
  same : job.request.clientJob = contract
  passes : ∀ text, job.resultText = some text → Passes env contract text
  done : job.status = .done → job.resultText.isSome = true

/-- A loaded row against the stored one: the same contract, and a result only where the stored row has one. -/
structure ReadOk (contract : Option ClientJob) (cur loaded : AgentJobRow) : Prop where
  same : loaded.request.clientJob = contract
  result : loaded.resultText.isSome = true → cur.resultText.isSome = true
  done : loaded.status = .done → loaded.resultText.isSome = true

theorem ResultOk.read {contract : Option ClientJob} {job : AgentJobRow} (h : ResultOk env contract job) :
    ReadOk contract job job := ⟨h.same, id, h.done⟩

/-- The result column after a flush, with a change that keeps it or stores a text. -/
theorem resultText_flush {loaded new cur : AgentJobRow} (h : ResultChange env loaded new) :
    (loaded.flush new cur).resultText = cur.resultText ∨
      ∃ text, (loaded.flush new cur).resultText = some text ∧ Passes env loaded.request.clientJob text := by
  have hcol : (loaded.flush new cur).resultText = col loaded.resultText new.resultText cur.resultText := rfl
  rw [hcol]
  cases h with
  | kept hresult hstatus =>
    rw [hresult, col_self]
    exact .inl rfl
  | @stored text hresult hpass =>
    by_cases heq : new.resultText = loaded.resultText
    · rw [heq, col_self]
      exact .inl rfl
    · rw [col_of_ne _ heq]
      exact .inr ⟨text, hresult, hpass⟩

/-- A row that is done after a flush was done before, or is closed by it. -/
theorem status_flush_done {loaded new cur : AgentJobRow} (h : (loaded.flush new cur).status = .done) :
    cur.status = .done ∨ new.status = .done := by
  have hcol : (loaded.flush new cur).status = col loaded.status new.status cur.status := rfl
  rw [hcol] at h
  unfold col at h
  split_ifs at h
  · exact .inl h
  · exact .inr h

theorem contract_flush {contract : Option ClientJob} {loaded new cur : AgentJobRow}
    (hcur : cur.request.clientJob = contract) (hnew : new.request.clientJob = contract) :
    (loaded.flush new cur).request.clientJob = contract := by
  have hcol : (loaded.flush new cur).request = col loaded.request new.request cur.request := rfl
  rw [hcol]
  unfold col
  split_ifs
  · exact hcur
  · exact hnew

/-- **A flush keeps the row sound, and the row keeps its result.** -/
theorem ResultOk.flush {contract : Option ClientJob} {loaded new cur : AgentJobRow}
    (hcur : ResultOk env contract cur)
    (hread : ReadOk contract cur loaded) (hnew : new.request.clientJob = loaded.request.clientJob)
    (h : ResultChange env loaded new) :
    ResultOk env contract (loaded.flush new cur) ∧
      (cur.resultText.isSome = true → (loaded.flush new cur).resultText.isSome = true) := by
  have hresult : (loaded.flush new cur).resultText = cur.resultText ∨
      ∃ text, (loaded.flush new cur).resultText = some text ∧ Passes env loaded.request.clientJob text :=
    resultText_flush h
  have hmono : cur.resultText.isSome = true → (loaded.flush new cur).resultText.isSome = true := by
    intro hsome
    rcases hresult with hr | ⟨text, hr, -⟩
    · rw [hr]
      exact hsome
    · rw [hr]
      rfl
  refine ⟨⟨contract_flush hcur.same (hnew.trans hread.same), fun text ht => ?_, fun hdone => ?_⟩, hmono⟩
  · rcases hresult with hr | ⟨text', hr, hpass⟩
    · exact hcur.passes text (hr.symm.trans ht)
    · obtain rfl : text' = text := by simpa [hr] using ht
      rw [hread.same] at hpass
      exact hpass
  · rcases status_flush_done hdone with hc | hn
    · exact hmono (hcur.done hc)
    · cases h with
      | kept hr hstatus =>
        -- the loaded row was done, so it had a result, and so has the stored one
        exact hmono (hread.result (hread.done (hstatus hn)))
      | @stored text hr hpass =>
        rcases hresult with hr' | ⟨text', hr', -⟩
        · -- the text was already there when the row was loaded
          by_cases heq : new.resultText = loaded.resultText
          · exact hmono (hread.result (by rw [← heq, hr]; rfl))
          · have hcol : (loaded.flush new cur).resultText = new.resultText := col_of_ne _ heq
            rw [hcol, hr]
            rfl
        · rw [hr']
          rfl

theorem parkJob_result (p : Park) (job : AgentJobRow) : ResultChange env job (parkJob p job) :=
  .kept rfl fun h => by cases h

/-! ### Steps and runs -/

/-- Every row a transaction has loaded is sound against the stored one. -/
def ActorReads (contract : Option ClientJob) (cur : AgentJobRow) (c : Ctl) : Prop :=
  ∀ j, c.openJob = some j → ReadOk contract cur j

theorem ActorReads.mono {contract : Option ClientJob} {cur cur' : AgentJobRow} {c : Ctl}
    (h : ActorReads contract cur c) (hm : cur.resultText.isSome = true → cur'.resultText.isSome = true) :
    ActorReads contract cur' c :=
  fun j hj => ⟨(h j hj).same, fun hs => hm ((h j hj).result hs), (h j hj).done⟩

theorem actorReads_of_shut {contract : Option ClientJob} {cur : AgentJobRow} {c : Ctl}
    (h : c.openJob = none) : ActorReads contract cur c :=
  fun j hj => absurd (h.symm.trans hj) (by simp)

theorem Reads.actorReads {contract : Option ClientJob} {db : RunDb} {c c' : Ctl} (h : Reads db c c')
    (hrow : ResultOk env contract db.job) : ActorReads contract db.job c' := by
  cases h with
  | shut _ hj _ => exact actorReads_of_shut hj
  | run _ hj _ _ => exact actorReads_of_shut hj
  | job _ hj _ _ =>
    intro j hopen
    rw [hj j hopen]
    exact hrow.read

/-- What the row of a run and the reads of its actors satisfy. -/
structure RunSys.Stored (env : Env) (contract : Option ClientJob) (s : RunSys) : Prop where
  inv : s.Inv
  row : ResultOk env contract s.db.job
  reads : ∀ c ∈ s.actors, ActorReads contract s.db.job c

/-- One step of an actor. -/
theorem Effect.stored {contract : Option ClientJob} {db db' : RunDb} {c c' : Ctl}
    (h : Effect env cfg db c db' c')
    (hc : ActorOk db c) (hread : ActorReads contract db.job c) (hrow : ResultOk env contract db.job) :
    ResultOk env contract db'.job ∧ ActorReads contract db'.job c' ∧
      (db.job.resultText.isSome = true → db'.job.resultText.isSome = true) := by
  cases h with
  | quiet hs hr =>
    have hmono : db.job.resultText.isSome = true → db'.job.resultText.isSome = true := by
      rw [hs.resultText]
      exact id
    refine ⟨⟨by rw [hs.request]; exact hrow.same, ?_, ?_⟩, (hr.actorReads hrow).mono hmono, hmono⟩
    · rw [hs.resultText]
      exact hrow.passes
    · rw [hs.status, hs.resultText]
      exact hrow.done
  | @append tx now run job hcc hcommit =>
    subst hcc
    have hnext : c'.openJob = none := hc.wf.2.1
    have hjob : db'.job = job.elim db.job fun j =>
        j.flush (appendJob env now run j (gatedEvent env tx.ev j.request.clientJob)) db.job :=
          commitAppend_job hcommit
    cases job with
    | none =>
      rw [hjob]
      exact ⟨hrow, actorReads_of_shut hnext, id⟩
    | some j =>
      have hflush := hrow.flush (hread j rfl) (appendJob_contract now run j _) (appendJob_result now run j tx.ev)
      rw [hjob]
      exact ⟨hflush.1, actorReads_of_shut hnext, hflush.2⟩
  | @park p leased now run job hcc hcs hcommit =>
    subst hcc hcs
    have hjob : db'.job = job.flush (parkJob p job) db.job := commitPark_job hcommit
    have hsame : (parkJob p job).request.clientJob = job.request.clientJob := rfl
    have hflush := hrow.flush (hread job rfl) hsame (parkJob_result p job)
    rw [hjob]
    exact ⟨hflush.1, actorReads_of_shut rfl, hflush.2⟩
  | @requeue why leased now job hcc hdb hr =>
    subst hdb
    have hrequest : (commitRequeue cfg now job db).job.request = db.job.request := col_self _ _
    have hresult : (commitRequeue cfg now job db).job.resultText = db.job.resultText := col_self _ _
    have hmono : db.job.resultText.isSome = true →
      (commitRequeue cfg now job db).job.resultText.isSome = true := by
      rw [hresult]
      exact id
    refine ⟨⟨by rw [hrequest]; exact hrow.same, ?_, fun hdone => ?_⟩, (hr.actorReads hrow).mono hmono, hmono⟩
    · rw [hresult]
      exact hrow.passes
    · -- a requeue sets `pending`, so the row was done before
      rcases status_flush_done hdone with hd | hd
      · exact hmono (hrow.done hd)
      · cases hd

theorem RunSys.step_stored {contract : Option ClientJob} {s s' : RunSys} {a : Act}
    (h : s.step env cfg a = some s') (hS : s.Stored env contract) : s'.Stored env contract := by
  suffices hrow : ResultOk env contract s'.db.job ∧ ∀ c ∈ s'.actors, ActorReads contract s'.db.job c from
    ⟨s.step_inv h hS.inv, hrow.1, hrow.2⟩
  cases RunSys.step_effect h with
  | claim hclaim hdb hactors =>
    rw [hdb]
    refine ⟨⟨hS.row.same, hS.row.passes, fun hdone => by cases hdone⟩, ?_⟩
    exact forall_mem_spawned hactors (fun d hd => (hS.reads d hd).mono id) (actorReads_of_shut rfl)
  | spawn hc hdb hactors =>
    rw [hdb]
    exact ⟨hS.row, forall_mem_spawned hactors hS.reads (actorReads_of_shut hc.job)⟩
  | actor ha hmem hstep hactors =>
    obtain ⟨hrow, hread, hmono⟩ :=
      (stepActor_effect hstep).stored (hS.inv.actors _ hmem) (hS.reads _ hmem) hS.row
    exact ⟨hrow, forall_mem_moved hactors (fun d hd => (hS.reads d hd).mono hmono) hread⟩

theorem NewRun.start_stored (n : NewRun) : n.start.Stored env n.request.clientJob :=
  ⟨n.start_inv, ⟨rfl, by simp [NewRun.start, NewRun.rows], by simp [NewRun.start, NewRun.rows]⟩,
    by simp [NewRun.start]⟩

/-- **What a run stores passed the gate**, in every interleaving of its workers, cancels and sweeps: the
contract of the row is the one it was created with, and a row that is done holds a text for which the gate of
that contract finds no problem. -/
theorem stored_result_passes (env : Env) (cfg : ExecConfig) (n : NewRun) {as : List Act} {s : RunSys}
    (h : Steps (RunSys.step env cfg) Free n.start as s) :
    s.db.job.request.clientJob = n.request.clientJob ∧
    (s.db.job.status = .done → ∃ text, s.db.job.resultText = some text ∧ Passes env n.request.clientJob text) := by
  have hS : s.Stored env n.request.clientJob :=
    h.inv (fun _ _ _ hS _ hs => RunSys.step_stored hs hS) n.start_stored
  refine ⟨hS.row.same, fun hdone => ?_⟩
  obtain ⟨text, ht⟩ := Option.isSome_iff_exists.mp (hS.row.done hdone)
  exact ⟨text, ht, hS.row.passes text ht⟩

/-! ### The gate of the run service -/

/-- `client_job["response_format"]` as a document. -/
def formatOf (responseFormat : Option Json) : Val ℚ := responseFormat.elim .null Val.ofJson

/-- A verdict; a check that raises rolls the transaction back, so its text is not stored either. -/
def verdict (r : Except OutputError (Option String)) : Option String :=
  match r with
  | .ok problem => problem
  | .error _ => some "output_problem raised"

/-- The environment of a run whose texts are masked by `redact` and gated by `output_problem`.  A redaction that
raises ends `append_event` as well, so no text comes of it. -/
def Env.gated (env : Env) (lib : SchemaLib) (room stack : ℕ) (repr : ℚ → List Char)
    (floatRepr : PyFloat → List Char) : Env :=
  { env with
    redactFinalText := fun text rf =>
      (Agent.redactFinalText env.redact room stack floatRepr text (formatOf rf)).toOption.getD text
    outputProblem := fun text rf =>
      match Agent.redactFinalText env.redact room stack floatRepr text (formatOf rf) with
      | .error _ => some "redact_final_text raised"
      | .ok _ => verdict (Agent.outputProblem lib room repr text (formatOf rf)) }

theorem outputProblem_of_gated {env : Env} {lib : SchemaLib} {room stack : ℕ} {repr : ℚ → List Char}
    {floatRepr : PyFloat → List Char} {text : String} {rf : Option Json}
    (h : (env.gated lib room stack repr floatRepr).outputProblem text rf = none) :
    Agent.outputProblem lib room repr text (formatOf rf) = .ok none := by
  simp only [Env.gated] at h
  split at h
  · cases h
  · cases hp : Agent.outputProblem lib room repr text (formatOf rf) with
    | ok problem =>
      rw [hp] at h
      exact congrArg Except.ok h
    | error e =>
      rw [hp] at h
      cases h

end Broker.Agent
