import Mathlib.Data.List.Sort
import Broker.Db.Models
import Broker.Lib.Table
import Broker.Services.JobCursor

/-!
# Broker.Services.JobList — walking a project's jobs page by page

Keyset paging on `id` under a high watermark that the first page fixes.  A page is cut before the
unreadable agent rows are dropped from it, so its cursor moves past them and a page may come out empty.
Between two pages the store changes: jobs are inserted above every id ever given out, rows change what is
not a filter column, rows disappear.
-/

namespace Broker.Services

open Broker.Db Broker.Lib

/-! ### The store -/

/-- What a row of `deep_jobs` may change after its insertion. -/
structure JobLive where
  status : Status
  startedAt : Option Time := none
  completedAt : Option Time := none
  retryCount : ℕ := 0
  cancelRequested : Bool := false
  model : Option String := none
  requestedModel : Option String := none
  requestModel : Option Json := none
  requestAccount : Option Json := none

/-- The columns of `deep_jobs` a job list reads. -/
structure ListedJob where
  id : ℕ
  projectId : ℕ
  capability : String
  labels : Option (List (String × String)) := none
  traceId : Option String := none
  idempotencyKey : Option String := none
  createdAt : Time := 0
  live : JobLive

/-- The table, with the next id of its sequence. -/
structure JobStore where
  rows : List ListedJob
  nextId : ℕ
  nodup : (rows.map ListedJob.id).Nodup
  pos : 0 < nextId
  le : nextId ≤ maxId + 1
  lt : ∀ r ∈ rows, 0 < r.id ∧ r.id < nextId

/-- What the other parties do between two pages. -/
inductive Change where
  | insert (gap : ℕ) (job : ListedJob)
  | update (id : ℕ) (live : JobLive)
  | delete (id : ℕ)

namespace JobStore

/-- An inserted row takes an id of the sequence, if there is one left. -/
def insert (s : JobStore) (gap : ℕ) (job : ListedJob) : JobStore :=
  if h : s.nextId + gap ≤ maxId then
    { rows := s.rows ++ [{ job with id := s.nextId + gap }]
      nextId := s.nextId + gap + 1
      nodup := by
        rw [List.map_append, List.nodup_append]
        refine ⟨s.nodup, List.nodup_singleton _, ?_⟩
        intro a ha b hb
        obtain ⟨r, hr, rfl⟩ := List.mem_map.mp ha
        have hlt := (s.lt r hr).2
        have hb' : b = s.nextId + gap := by simpa using hb
        omega
      pos := Nat.succ_pos _
      le := by omega
      lt := by
        intro r hr
        rcases List.mem_append.mp hr with hr | hr
        · have := s.lt r hr
          omega
        · obtain rfl := List.mem_singleton.mp hr
          have := s.pos
          simp only
          omega }
  else s

def update (s : JobStore) (id : ℕ) (live : JobLive) : JobStore :=
  { s with
    rows := updateWhere (fun r => r.id = id) (fun r => { r with live := live }) s.rows
    nodup := by
      have hids : (updateWhere (fun r => r.id = id) (fun r => { r with live := live }) s.rows).map ListedJob.id =
          s.rows.map ListedJob.id := map_updateWhere fun _ => rfl
      rw [hids]
      exact s.nodup
    lt := by
      intro r hr
      rcases mem_updateWhere.mp hr with ⟨hr, -⟩ | ⟨r', hr', -, rfl⟩
      · exact s.lt r hr
      · exact s.lt r' hr' }

def delete (s : JobStore) (id : ℕ) : JobStore :=
  { s with
    rows := s.rows.filter fun r => r.id ≠ id
    nodup := s.nodup.sublist (List.filter_sublist.map _)
    lt := fun r hr => s.lt r (List.mem_of_mem_filter hr) }

def apply (s : JobStore) : Change → JobStore
  | .insert gap job => s.insert gap job
  | .update id live => s.update id live
  | .delete id => s.delete id

def run (s : JobStore) (changes : List Change) : JobStore := changes.foldl apply s

end JobStore

/-! ### One page -/

/-- `_AGENT_PREFIX`. -/
def agentPrefix : String := "agent:"

def ListedJob.isAgent (r : ListedJob) : Bool := agentPrefix.toList.isPrefixOf r.capability.toList

/-- The filter of a listing: the project, one label pair, and a trace when given. -/
structure ListFilter where
  projectId : ℕ
  key : String
  value : String
  traceId : Option String := none

/-- `_has_label`: the labels contain the pair. -/
def hasLabel (labels : Option (List (String × String))) (key value : String) : Bool :=
  labels.any fun d => d.contains (key, value)

/-- The columns of `_filters` that a row keeps for life. -/
def ListFilter.accepts (q : ListFilter) (r : ListedJob) : Bool :=
  r.projectId = q.projectId && hasLabel r.labels q.key q.value && q.traceId.all fun t => r.traceId = some t

/-- The two request fields the access check reads. -/
structure AgentRequest where
  model : Option Json
  accountId : Option Json

def ListedJob.request (r : ListedJob) : AgentRequest := ⟨r.live.requestModel, r.live.requestAccount⟩

/-- What the caller may read: agent runs at all, and which of them. -/
structure ReadAccess where
  agentOpen : Bool
  readable : String → AgentRequest → Bool

/-- `_filters`. -/
def ListFilter.selects (q : ListFilter) (acc : ReadAccess) (r : ListedJob) : Bool :=
  q.accepts r && (acc.agentOpen || !r.isAgent)

/-- The row is listed once it is on the page. -/
def ReadAccess.lists (acc : ReadAccess) (r : ListedJob) :
    Bool := !r.isAgent || acc.readable r.capability r.request

/-- The caller may see the row. -/
def ReadAccess.sees (acc : ReadAccess) (r : ListedJob) : Bool :=
  !r.isAgent || (acc.agentOpen && acc.readable r.capability r.request)

def idLe (a b : ListedJob) : Prop := a.id ≤ b.id

instance : DecidableRel idLe := fun a b => inferInstanceAs (Decidable (a.id ≤ b.id))

/-- `ORDER BY id`. -/
def orderById (rows : List ListedJob) : List ListedJob := rows.insertionSort idLe

/-- `SELECT max(id) … ` of the project, or 0. -/
def JobStore.highWatermark (s : JobStore) (project : ℕ) : ℕ :=
  ((s.rows.filter fun r => r.projectId = project).map ListedJob.id).foldl max 0

/-- `NON_TERMINAL`. -/
def isLive (r : ListedJob) : Bool := r.live.status = .pending || r.live.status = .running

/-- `_AGENT_SCAN_CHUNK`. -/
def agentScanChunk : ℕ := 500

/-- The loop of `_quiet` over the agent rows past `last`. -/
def agentScan (acc : ReadAccess) (live : List ListedJob) : ℕ → ℕ → Bool
  | 0, _ => true
  | f + 1, last =>
    let rows := (orderById (live.filter fun r => last < r.id && r.isAgent)).take agentScanChunk
    if rows.any fun r => acc.readable r.capability r.request then false
    else if rows.length < agentScanChunk then true
    else agentScan acc live f ((rows.getLast?.map ListedJob.id).getD 0)

/-- `_quiet`: nothing the caller may see is in flight up to `hw`. -/
def quiet (s : JobStore) (q : ListFilter) (acc : ReadAccess) (hw : ℕ) : Bool :=
  let live := s.rows.filter fun r => q.selects acc r && r.id ≤ hw && isLive r
  if live.any fun r => !r.isAgent then false
  else if acc.agentOpen then agentScan acc live (live.length + 1) 0
  else true

/-- `_item`. -/
structure JobItem where
  jobId : ℕ
  status : Status
  capability : String
  model : Option String
  requestedModel : Option String
  createdAt : Time
  startedAt : Option Time
  completedAt : Option Time
  labels : Option (List (String × String))
  traceId : Option String
  idempotencyKey : Option String
  retryCount : ℕ
  cancelRequested : Bool

def itemOf (r : ListedJob) : JobItem where
  jobId := r.id
  status := r.live.status
  capability := r.capability
  model := r.live.model
  requestedModel := r.live.requestedModel
  createdAt := r.createdAt
  startedAt := r.live.startedAt
  completedAt := r.live.completedAt
  labels := r.labels
  traceId := r.traceId
  idempotencyKey := r.idempotencyKey
  retryCount := r.live.retryCount
  cancelRequested := r.live.cancelRequested

structure JobPage where
  jobs : List JobItem
  nextCursor : Option String
  paginationComplete : Bool
  noNonterminalInFilter : Bool
  highWatermark : ℕ

/-- The cursor a first page stands for. -/
def firstCursor (s : JobStore) (q : ListFilter) (acc : ReadAccess) : Cursor :=
  ⟨0, s.highWatermark q.projectId, quiet s q acc (s.highWatermark q.projectId)⟩

/-- The rows of the walk past the cursor, by id. -/
def rowsPast (s : JobStore) (q : ListFilter) (acc : ReadAccess) (status : Option Status) (c : Cursor) :
    List ListedJob :=
  orderById (s.rows.filter fun r =>
    q.selects acc r && (c.after < r.id && r.id ≤ c.hw) && status.all fun st => r.live.status = st)

/-- The page a select of `limit + 1` rows is cut to. -/
def cutPage (limit : ℕ) (c : Cursor) (acc : ReadAccess) (rows : List ListedJob) : JobPage :=
  let page := rows.take limit
  let more := limit < rows.length
  { jobs := (page.filter acc.lists).map itemOf
    nextCursor := if more then page.getLast?.map fun r => encodeCursor ⟨r.id, c.hw, c.quiet⟩ else none
    paginationComplete := !more
    noNonterminalInFilter := c.quiet
    highWatermark := c.hw }

/-- `list_jobs`; its statements see one state of the table. -/
def listJobs (s : JobStore) (q : ListFilter) (acc : ReadAccess) (status : Option Status) (limit : ℕ)
    (cursor : Option Cursor) : JobPage :=
  let c := cursor.getD (firstCursor s q acc)
  cutPage limit c acc ((rowsPast s q acc status c).take (limit + 1))

/-! ### The walk -/

/-- One request of the walk: what happened since the last one, what the caller may read by now, and the
limit. -/
structure Visit where
  changes : List Change
  access : ReadAccess
  limit : ℕ
  limit_pos : 0 < limit

section Walk

variable (codec : Codec) (q : ListFilter) (s₀ : JobStore) (visits : ℕ → Visit)

/-- The store the `k`-th request finds. -/
def storeAt : ℕ → JobStore
  | 0 => s₀.run (visits 0).changes
  | k + 1 => (storeAt k).run (visits (k + 1)).changes

/-- How a walk stops short of its last page: a refused cursor, or (in the model only) the fuel. -/
inductive WalkError | cursor (e : CursorError) | fuel
  deriving DecidableEq, Repr

/-- The answer to the `k`-th request. -/
def pageAt (k : ℕ) (cursor : Option Cursor) : JobPage :=
  listJobs (storeAt s₀ visits k) q (visits k).access none (visits k).limit cursor

/-- Following `next_cursor` from the `k`-th request on. -/
def walkFrom : ℕ → ℕ → Option Cursor → Except WalkError (List JobPage)
  | 0, _, _ => .error .fuel
  | n + 1, k, cursor =>
    match (pageAt q s₀ visits k cursor).nextCursor with
    | none => .ok [pageAt q s₀ visits k cursor]
    | some token =>
      match decodeCursor codec token with
      | .error e => .error (.cursor e)
      | .ok c => (walkFrom n (k + 1) (some c)).map fun pages => pageAt q s₀ visits k cursor :: pages

/-- The whole walk, from a request without a cursor. -/
def walk (n : ℕ) : Except WalkError (List JobPage) := walkFrom codec q s₀ visits n 0 none

end Walk

/-- The ids of some pages, in the order they were returned. -/
def pageIds (pages : List JobPage) : List ℕ := pages.flatMap fun p => p.jobs.map JobItem.jobId

/-! ### The rows of a page -/

instance : Std.Total idLe := ⟨fun a b => le_total a.id b.id⟩

instance : IsTrans ListedJob idLe := ⟨fun _ _ _ hab hbc => Nat.le_trans hab hbc⟩

theorem mem_orderById {rows : List ListedJob} {r : ListedJob} : r ∈ orderById rows ↔ r ∈ rows :=
  List.mem_insertionSort idLe

/-- Rows with distinct ids come out strictly increasing. -/
theorem pairwise_orderById {rows : List ListedJob} (h : (rows.map ListedJob.id).Nodup) :
    (orderById rows).Pairwise fun a b => a.id < b.id := by
  have hle : (orderById rows).Pairwise idLe := List.pairwise_insertionSort idLe rows
  have hne : ((orderById rows).map ListedJob.id).Nodup :=
    (((List.perm_insertionSort idLe rows).map _).nodup_iff).mpr h
  rw [List.Nodup, List.pairwise_map] at hne
  exact hle.imp₂ (fun a b hab hne => Nat.lt_of_le_of_ne hab hne) hne

variable {s : JobStore} {q : ListFilter} {acc : ReadAccess} {c : Cursor} {r : ListedJob}

theorem mem_rowsPast : r ∈ rowsPast s q acc none c ↔
    r ∈ s.rows ∧ q.selects acc r = true ∧ c.after < r.id ∧ r.id ≤ c.hw := by
  simp [rowsPast, mem_orderById, List.mem_filter]

theorem pairwise_rowsPast (s : JobStore) (q : ListFilter) (acc : ReadAccess) (c : Cursor) :
    (rowsPast s q acc none c).Pairwise fun a b => a.id < b.id :=
  pairwise_orderById (s.nodup.sublist (List.filter_sublist.map _))

/-- The caller sees a row exactly when the filter of the statement and the check on the page both let it
by. -/
theorem sees_iff : acc.sees r = true ↔ (acc.agentOpen || !r.isAgent) = true ∧ acc.lists r = true := by
  unfold ReadAccess.sees ReadAccess.lists
  cases r.isAgent <;> cases acc.agentOpen <;> simp

theorem selects_iff : q.selects acc r = true ↔ q.accepts r = true ∧ (acc.agentOpen || !r.isAgent) = true := by
  simp [ListFilter.selects]

theorem listJobs_some (s : JobStore) (q : ListFilter) (acc : ReadAccess) (limit : ℕ) (c : Cursor) :
    listJobs s q acc none limit (some c) = cutPage limit c acc ((rowsPast s q acc none c).take (limit + 1)) := rfl

theorem take_take_succ (limit : ℕ) (rows : List ListedJob) :
    (rows.take (limit + 1)).take limit = rows.take limit := by
  rw [List.take_take, Nat.min_eq_left (Nat.le_succ limit)]

theorem cutPage_jobs (limit : ℕ) (c : Cursor) (acc : ReadAccess) (rows : List ListedJob) :
    (cutPage limit c acc (rows.take (limit + 1))).jobs = ((rows.take limit).filter acc.lists).map itemOf := by
  simp only [cutPage, take_take_succ]

/-- The last row of the first `limit` rows has these behind it and the others ahead. -/
theorem exists_cut {limit : ℕ} (hlimit : 0 < limit) {rows : List ListedJob} (hlen : limit ≤ rows.length)
    (hrows : rows.Pairwise fun a b => a.id < b.id) :
    ∃ r ∈ rows, (rows.take limit).getLast? = some r ∧ (∀ x ∈ rows.take limit, x.id ≤ r.id) ∧
      ∀ x ∈ rows.drop limit, r.id < x.id := by
  have hne : rows.take limit ≠ [] := by
    intro h
    have hzero := congrArg List.length h
    rw [List.length_take, Nat.min_eq_left hlen, List.length_nil] at hzero
    omega
  have hlast := List.getLast_mem hne
  have hsplit : (rows.take limit ++ rows.drop limit).Pairwise fun a b => a.id < b.id := by
    rwa [List.take_append_drop]
  obtain ⟨hpre, -, hcross⟩ := List.pairwise_append.mp hsplit
  refine ⟨(rows.take limit).getLast hne, List.mem_of_mem_take hlast, List.getLast?_eq_getLast_of_ne_nil hne, ?_,
    fun x hx => hcross _ hlast x hx⟩
  intro x hx
  rw [← List.dropLast_append_getLast hne] at hpre hx
  rcases List.mem_append.mp hx with hx | hx
  · exact ((List.pairwise_append.mp hpre).2.2 x hx _ (by simp)).le
  · rw [List.mem_singleton.mp hx]

/-- **The cursor of a page**: none when everything is on it; else one that has its rows behind and the others
ahead, readable or not. -/
theorem cutPage_cases {limit : ℕ} (hlimit : 0 < limit) {rows : List ListedJob}
    (hrows : rows.Pairwise fun a b => a.id < b.id) (c : Cursor) (acc : ReadAccess) :
    (rows.length ≤ limit ∧ (cutPage limit c acc (rows.take (limit + 1))).nextCursor = none) ∨
    ∃ r ∈ rows, limit < rows.length ∧ (∀ x ∈ rows.take limit, x.id ≤ r.id) ∧
      (∀ x ∈ rows.drop limit, r.id < x.id) ∧
      (cutPage limit c acc (rows.take (limit + 1))).nextCursor = some (encodeCursor ⟨r.id, c.hw, c.quiet⟩) := by
  by_cases hmore : limit < rows.length
  · obtain ⟨r, hr, hlast, hbehind, hahead⟩ := exists_cut hlimit hmore.le hrows
    have hlen : limit < (rows.take (limit + 1)).length := by
      rw [List.length_take]
      omega
    refine .inr ⟨r, hr, hmore, hbehind, hahead, ?_⟩
    simp only [cutPage, take_take_succ, hlen, if_true, hlast, Option.map_some]
  · have hlen : ¬ limit < (rows.take (limit + 1)).length := by
      rw [List.length_take]
      omega
    exact .inl ⟨Nat.not_lt.mp hmore, by simp only [cutPage, hlen, if_false]⟩

/-! ### Nothing in flight -/

/-- Past an agent row there are fewer of them. -/
theorem length_agentsPast_lt {live : List ListedJob} {last : ℕ} {r₀ : ListedJob} (hr₀ : r₀ ∈ live)
    (hagent : r₀.isAgent = true) (hlt : last < r₀.id) :
    (live.filter fun r => r₀.id < r.id && r.isAgent).length <
      (live.filter fun r => last < r.id && r.isAgent).length := by
  have hsub : (live.filter fun r => r₀.id < r.id && r.isAgent) =
      (live.filter fun r => last < r.id && r.isAgent).filter fun r => r₀.id < r.id := by
    rw [List.filter_filter]
    refine List.filter_congr fun r _ => ?_
    by_cases h : r₀.id < r.id
    · simp [h, hlt.trans h]
    · simp [h]
  rw [hsub, List.length_filter_lt_length_iff_exists]
  exact ⟨r₀, by simp [hr₀, hagent, hlt], by simp⟩

/-- The loop over the agent rows finds no readable one past `last` exactly when there is none; it needs
one pass per row at most. -/
theorem agentScan_eq_true (acc : ReadAccess) {live : List ListedJob} (hlive : (live.map ListedJob.id).Nodup) :
    ∀ (f last : ℕ), (live.filter fun r => last < r.id && r.isAgent).length < f →
      (agentScan acc live f last = true ↔
        ∀ r ∈ live, r.isAgent = true → last < r.id → acc.readable r.capability r.request = false) := by
  intro f
  induction f with
  | zero => exact fun last h => absurd h (Nat.not_lt_zero _)
  | succ f ih =>
    intro last hf
    have hmem : ∀ r, r ∈ orderById (live.filter fun r => last < r.id && r.isAgent) ↔
        r ∈ live ∧ last < r.id ∧ r.isAgent = true := fun r => by simp [mem_orderById]
    have hsorted := pairwise_orderById (hlive.sublist
      (List.Sublist.map ListedJob.id (List.filter_sublist (p := fun r => last < r.id && r.isAgent))))
    have hlength : (orderById (live.filter fun r => last < r.id && r.isAgent)).length < f + 1 := by
      rwa [orderById, List.length_insertionSort]
    unfold agentScan
    generalize horder : orderById (live.filter fun r => last < r.id && r.isAgent) = rows at hmem hsorted hlength ⊢
    simp only
    split_ifs with hany hshort
    · -- a readable row of this chunk
      obtain ⟨r, hr, hread⟩ := List.any_eq_true.mp hany
      obtain ⟨hr, hlt, hagent⟩ := (hmem r).mp (List.mem_of_mem_take hr)
      refine iff_of_false (by simp) fun hall => ?_
      rw [hall r hr hagent hlt] at hread
      cases hread
    · -- the last chunk
      have htake : rows.take agentScanChunk = rows := by
        refine List.take_of_length_le ?_
        rw [List.length_take] at hshort
        omega
      refine iff_of_true rfl fun r hr hagent hlt => ?_
      rw [htake] at hany
      by_contra hread
      exact hany (List.any_eq_true.mpr ⟨r, (hmem r).mpr ⟨hr, hlt, hagent⟩, by simpa using hread⟩)
    · -- a full chunk without one: on from its last row
      have hfull : agentScanChunk ≤ rows.length := by
        rw [List.length_take] at hshort
        omega
      obtain ⟨r₀, hr₀, hlast, hbehind, hahead⟩ := exists_cut (by decide) hfull hsorted
      have hlt₀ := ((hmem r₀).mp hr₀).2.1
      rw [hlast, Option.map_some, Option.getD_some]
      have hshorter := length_agentsPast_lt ((hmem r₀).mp hr₀).1 ((hmem r₀).mp hr₀).2.2 hlt₀
      have hrest : (live.filter fun r => r₀.id < r.id && r.isAgent).length < f := by omega
      rw [ih r₀.id hrest]
      constructor
      · intro hall r hr hagent hlt
        have hrow := (hmem r).mpr ⟨hr, hlt, hagent⟩
        rw [← List.take_append_drop agentScanChunk rows] at hrow
        rcases List.mem_append.mp hrow with hrow | hrow
        · by_contra hread
          exact hany (List.any_eq_true.mpr ⟨r, hrow, by simpa using hread⟩)
        · exact hall r hr hagent (hahead r hrow)
      · exact fun hall r hr hagent hlt => hall r hr hagent (hlt₀.trans hlt)

/-- `no_nonterminal_in_filter` of a first page: no job of the filter that the caller sees is in flight. -/
theorem quiet_eq_true (s : JobStore) (q : ListFilter) (acc : ReadAccess) (hw : ℕ) :
    quiet s q acc hw = true ↔
      ∀ r ∈ s.rows, q.accepts r = true → r.id ≤ hw → isLive r = true → acc.sees r = false := by
  unfold quiet
  generalize hdef : (s.rows.filter fun r => q.selects acc r && r.id ≤ hw && isLive r) = live
  have hmem : ∀ r, r ∈ live ↔ r ∈ s.rows ∧ q.selects acc r = true ∧ r.id ≤ hw ∧ isLive r = true := fun r => by
    simp [← hdef, and_assoc]
  have hnodup : (live.map ListedJob.id).Nodup := hdef ▸ s.nodup.sublist (List.filter_sublist.map _)
  simp only
  split_ifs with hplain hopen
  · -- a plain job in flight
    obtain ⟨r, hr, hagent⟩ := List.any_eq_true.mp hplain
    obtain ⟨hrow, hsel, hle, hlive⟩ := (hmem r).mp hr
    refine iff_of_false (by simp) fun hall => ?_
    have hsees := hall r hrow (selects_iff.mp hsel).1 hle hlive
    rw [ReadAccess.sees, hagent] at hsees
    cases hsees
  · have hpass : (live.filter fun r => 0 < r.id && r.isAgent).length < live.length + 1 :=
      Nat.lt_succ_of_le (List.length_filter_le _ _)
    rw [agentScan_eq_true acc hnodup _ _ hpass]
    constructor
    · intro hall r hr hacc hle hlive
      have hin : r ∈ live := (hmem r).mpr ⟨hr, selects_iff.mpr ⟨hacc, by simp [hopen]⟩, hle, hlive⟩
      have hagent : r.isAgent = true := by
        by_contra hna
        exact hplain (List.any_eq_true.mpr ⟨r, hin, by simpa using hna⟩)
      simp [ReadAccess.sees, hagent, hall r hin hagent (s.lt r hr).1]
    · intro hall r hr hagent _
      obtain ⟨hrow, hsel, hle, hlive⟩ := (hmem r).mp hr
      have hsees := hall r hrow (selects_iff.mp hsel).1 hle hlive
      simpa [ReadAccess.sees, hagent, hopen] using hsees
  · -- no agent row may be read at all
    refine iff_of_true rfl fun r hr hacc hle hlive => ?_
    by_contra hsees
    have hagent : r.isAgent = false := by
      have hs : acc.sees r = true := by simpa using hsees
      simpa [hopen] using (sees_iff.mp hs).1
    have hin : r ∈ live := (hmem r).mpr ⟨hr, selects_iff.mpr ⟨hacc, by simp [hagent]⟩, hle, hlive⟩
    exact hplain (List.any_eq_true.mpr ⟨r, hin, by simp [hagent]⟩)

/-! ### What a walk is -/

variable {codec : Codec} {s₀ : JobStore} {visits : ℕ → Visit} {k : ℕ} {pages : List JobPage}

/-- The rows the `k`-th request selects from past its cursor. -/
def rowsAt (q : ListFilter) (s₀ : JobStore) (visits : ℕ → Visit) (k : ℕ) (c : Cursor) : List ListedJob :=
  rowsPast (storeAt s₀ visits k) q (visits k).access none c

/-- The pages of a walk from the `k`-th request on, without the tokens: each page but the last leaves
rows ahead of the row its cursor names. -/
inductive Walked (q : ListFilter) (s₀ : JobStore) (visits : ℕ → Visit) :
    ℕ → Cursor → List JobPage → Prop where
  | last {k : ℕ} {c : Cursor} (hall : (rowsAt q s₀ visits k c).length ≤ (visits k).limit) :
      Walked q s₀ visits k c [pageAt q s₀ visits k (some c)]
  | more {k : ℕ} {c : Cursor} {r : ListedJob} {pages : List JobPage} (hr : r ∈ rowsAt q s₀ visits k c)
      (hmore : (visits k).limit < (rowsAt q s₀ visits k c).length)
      (hbehind : ∀ x ∈ (rowsAt q s₀ visits k c).take (visits k).limit, x.id ≤ r.id)
      (hahead : ∀ x ∈ (rowsAt q s₀ visits k c).drop (visits k).limit, r.id < x.id)
      (rest : Walked q s₀ visits (k + 1) ⟨r.id, c.hw, c.quiet⟩ pages) :
      Walked q s₀ visits k c (pageAt q s₀ visits k (some c) :: pages)

theorem mem_rowsAt : r ∈ rowsAt q s₀ visits k c ↔ r ∈ (storeAt s₀ visits k).rows ∧
    q.selects (visits k).access r = true ∧ c.after < r.id ∧ r.id ≤ c.hw := mem_rowsPast

/-- **Every walk ends**: each cursor names a higher id, so the fuel of one request per id is never used up. -/
theorem exists_walked (codec : Codec) (q : ListFilter) (s₀ : JobStore) (visits : ℕ → Visit) (m : ℕ) :
    ∀ k c, c.hw - c.after ≤ m → c.hw ≤ maxId →
      ∃ pages, Walked q s₀ visits k c pages ∧
        ∀ n, c.hw - c.after < n → walkFrom codec q s₀ visits n k (some c) = .ok pages := by
  induction m with
  | zero =>
    intro k c hm hmax
    -- no id is left between the position and the watermark
    have hnil : rowsAt q s₀ visits k c = [] := by
      refine List.eq_nil_iff_forall_not_mem.mpr fun r hr => ?_
      obtain ⟨-, -, hlt, hle⟩ := mem_rowsAt.mp hr
      omega
    refine ⟨_, .last (by rw [hnil]; exact Nat.zero_le _), ?_⟩
    intro n hn
    obtain ⟨n, rfl⟩ : ∃ n', n = n' + 1 := ⟨n - 1, by omega⟩
    have hnext : (pageAt q s₀ visits k (some c)).nextCursor = none := by
      rw [pageAt, listJobs_some]
      change (cutPage _ c _ ((rowsAt q s₀ visits k c).take _)).nextCursor = none
      rw [hnil]
      rfl
    rw [walkFrom, hnext]
  | succ m ih =>
    intro k c hm hmax
    have hcut := cutPage_cases (visits k).limit_pos (pairwise_rowsPast (storeAt s₀ visits k) q (visits k).access c) c
      (visits k).access
    rcases hcut with ⟨hlen, hnext⟩ | ⟨r, hr, hmore, hbehind, hahead, hnext⟩
    · refine ⟨_, .last hlen, fun n hn => ?_⟩
      obtain ⟨n, rfl⟩ : ∃ n', n = n' + 1 := ⟨n - 1, by omega⟩
      rw [walkFrom, pageAt, listJobs_some, hnext]
    · obtain ⟨-, -, hlt, hle⟩ := mem_rowsPast.mp hr
      obtain ⟨pages, hpages, hrun⟩ := ih (k + 1) ⟨r.id, c.hw, c.quiet⟩ (by simp only; omega) hmax
      refine ⟨_, .more hr hmore hbehind hahead hpages, fun n hn => ?_⟩
      obtain ⟨n, rfl⟩ : ∃ n', n = n' + 1 := ⟨n - 1, by omega⟩
      have hdecode : decodeCursor codec (encodeCursor ⟨r.id, c.hw, c.quiet⟩) = .ok ⟨r.id, c.hw, c.quiet⟩ :=
        decodeCursor_encodeCursor codec hle hmax
      have htail := hrun n (by simp only; omega)
      rw [walkFrom, pageAt, listJobs_some, hnext]
      simp only [hdecode, htail, Except.map]

theorem walk_eq (n : ℕ) : walk codec q s₀ visits n = walkFrom codec q s₀ visits n 0
    (some (firstCursor (storeAt s₀ visits 0) q (visits 0).access)) := by
  cases n <;> rfl

/-! ### The ids of a walk -/

/-- The ids on a page are those of its rows that are listed. -/
theorem mem_ids_pageAt {id : ℕ} : id ∈ (pageAt q s₀ visits k (some c)).jobs.map JobItem.jobId ↔
    ∃ r ∈ (rowsAt q s₀ visits k c).take (visits k).limit, (visits k).access.lists r = true ∧ r.id = id := by
  rw [pageAt, listJobs_some, cutPage_jobs, List.map_map]
  simp only [List.mem_map, List.mem_filter, Function.comp_apply, itemOf, and_assoc, rowsAt]

theorem pageIds_cons (p : JobPage) (pages : List JobPage) :
    pageIds (p :: pages) = p.jobs.map JobItem.jobId ++ pageIds pages := rfl

theorem Walked.within (h : Walked q s₀ visits k c pages) :
    ∀ id ∈ pageIds pages, c.after < id ∧ id ≤ c.hw := by
  have hpage : ∀ {k : ℕ} {c : Cursor}, ∀ id ∈ (pageAt q s₀ visits k (some c)).jobs.map JobItem.jobId,
      c.after < id ∧ id ≤ c.hw := by
    intro k c id hid
    obtain ⟨r, hr, -, rfl⟩ := mem_ids_pageAt.mp hid
    exact (mem_rowsAt.mp (List.mem_of_mem_take hr)).2.2
  induction h with
  | last hall =>
    intro id hid
    exact hpage id (by simpa [pageIds_cons, pageIds] using hid)
  | more hr hmore hbehind hahead rest ih =>
    intro id hid
    rw [pageIds_cons] at hid
    rcases List.mem_append.mp hid with hid | hid
    · exact hpage id hid
    · have hlt := (mem_rowsAt.mp hr).2.2.1
      obtain ⟨h1, h2⟩ := ih id hid
      exact ⟨hlt.trans h1, h2⟩

theorem pairwise_ids_pageAt (q : ListFilter) (s₀ : JobStore) (visits : ℕ → Visit) (k : ℕ) (c : Cursor) :
    ((pageAt q s₀ visits k (some c)).jobs.map JobItem.jobId).Pairwise (· < ·) := by
  rw [pageAt, listJobs_some, cutPage_jobs, List.map_map, List.pairwise_map]
  have hrows := pairwise_rowsPast (storeAt s₀ visits k) q (visits k).access c
  exact (hrows.sublist (List.take_sublist _ _)).sublist List.filter_sublist

theorem Walked.increasing (h : Walked q s₀ visits k c pages) : (pageIds pages).Pairwise (· < ·) := by
  induction h with
  | last hall => simpa [pageIds_cons, pageIds] using pairwise_ids_pageAt q s₀ visits _ _
  | more hr hmore hbehind hahead rest ih =>
    rw [pageIds_cons, List.pairwise_append]
    refine ⟨pairwise_ids_pageAt q s₀ visits _ _, ih, ?_⟩
    -- what the page lists is behind the next cursor, what follows is ahead of it
    intro a ha b hb
    obtain ⟨x, hx, -, rfl⟩ := mem_ids_pageAt.mp ha
    exact (hbehind x hx).trans_lt (rest.within b hb).1

/-- The caller sees a row of the filter with this id on the `k`-th request. -/
def SeenAt (q : ListFilter) (s₀ : JobStore) (visits : ℕ → Visit) (id k : ℕ) : Prop :=
  ∃ r ∈ (storeAt s₀ visits k).rows, r.id = id ∧ q.accepts r = true ∧ (visits k).access.sees r = true

theorem SeenAt.mem_rowsAt {id : ℕ} (h : SeenAt q s₀ visits id k) (hlt : c.after < id) (hle : id ≤ c.hw) :
    ∃ r ∈ rowsAt q s₀ visits k c, (visits k).access.lists r = true ∧ r.id = id := by
  obtain ⟨r, hr, rfl, hacc, hsees⟩ := h
  obtain ⟨hopen, hlists⟩ := sees_iff.mp hsees
  exact ⟨r, Services.mem_rowsAt.mpr ⟨hr, selects_iff.mpr ⟨hacc, hopen⟩, hlt, hle⟩, hlists, rfl⟩

/-- **Nothing is lost**: an id the caller sees on every request of the walk is on one of its pages. -/
theorem Walked.complete (h : Walked q s₀ visits k c pages) {id : ℕ} (hlt : c.after < id) (hle : id ≤ c.hw)
    (hseen : ∀ j < pages.length, SeenAt q s₀ visits id (k + j)) : id ∈ pageIds pages := by
  induction h with
  | @last k c hall =>
    obtain ⟨r, hr, hlists, rfl⟩ := (hseen 0 (by simp)).mem_rowsAt hlt hle
    have hid : r.id ∈ (pageAt q s₀ visits k (some c)).jobs.map JobItem.jobId :=
      mem_ids_pageAt.mpr ⟨r, by rwa [List.take_of_length_le hall], hlists, rfl⟩
    simpa [pageIds_cons, pageIds] using hid
  | @more k c r₀ pages hr hmore hbehind hahead rest ih =>
    rw [pageIds_cons, List.mem_append]
    obtain ⟨r, hrow, hlists, rfl⟩ := (hseen 0 (by simp)).mem_rowsAt hlt hle
    rw [Nat.add_zero, ← List.take_append_drop (visits k).limit (rowsAt q s₀ visits k c)] at hrow
    rcases List.mem_append.mp hrow with hrow | hrow
    · exact .inl (mem_ids_pageAt.mpr ⟨r, hrow, hlists, rfl⟩)
    · -- the row is ahead of the next cursor
      refine .inr (ih (hahead r hrow) hle fun j hj => ?_)
      have := hseen (j + 1) (by simpa using hj)
      rwa [Nat.add_comm j 1, ← Nat.add_assoc] at this

theorem Walked.length_le (h : Walked q s₀ visits k c pages) : pages.length ≤ c.hw - c.after + 1 := by
  induction h with
  | last hall => simp
  | more hr hmore hbehind hahead rest ih =>
    obtain ⟨-, -, hlt, hle⟩ := mem_rowsAt.mp hr
    simp only [List.length_cons] at ih ⊢
    omega

theorem Walked.watermark (h : Walked q s₀ visits k c pages) : ∀ p ∈ pages, p.highWatermark = c.hw := by
  induction h with
  | last hall => simp [pageAt, listJobs_some, cutPage]
  | more hr hmore hbehind hahead rest ih => simpa [pageAt, listJobs_some, cutPage] using ih

/-- Each page is the answer to its request at some cursor, and the last one exactly when no more rows than the
limit were left past that cursor, readable or not. -/
theorem Walked.cursors (h : Walked q s₀ visits k c pages) :
    ∃ cs : List Cursor, cs.length = pages.length ∧ ∀ j c' p, cs[j]? = some c' → pages[j]? = some p →
      p = pageAt q s₀ visits (k + j) (some c') ∧ c'.hw = c.hw ∧
        (j + 1 = pages.length ↔ (rowsAt q s₀ visits (k + j) c').length ≤ (visits (k + j)).limit) := by
  induction h with
  | @last k c hall =>
    refine ⟨[c], rfl, ?_⟩
    rintro (_ | j) c' p hc hp
    · obtain rfl : c = c' := by simpa using hc
      obtain rfl : pageAt q s₀ visits k (some c) = p := by simpa using hp
      exact ⟨rfl, rfl, by simpa using hall⟩
    · simp at hc
  | @more k c r pages hr hmore hbehind hahead rest ih =>
    obtain ⟨cs, hlen, hcs⟩ := ih
    refine ⟨c :: cs, by simp [hlen], ?_⟩
    rintro (_ | j) c' p hc hp
    · obtain rfl : c = c' := by simpa using hc
      obtain rfl : pageAt q s₀ visits k (some c) = p := by simpa using hp
      have hpos : pages ≠ [] := by cases rest <;> simp
      refine ⟨rfl, rfl, iff_of_false ?_ (Nat.not_le.mpr hmore)⟩
      simpa using hpos
    · have h := hcs j c' p (by simpa using hc) (by simpa using hp)
      rw [Nat.add_right_comm k 1 j] at h
      simpa [Nat.add_assoc] using h

/-! ### Rows keep their filter columns -/

/-- Below the sequence of `s`, the rows of `s'` are rows of `s` in all but their live columns. -/
def JobStore.Keeps (s s' : JobStore) : Prop :=
  s.nextId ≤ s'.nextId ∧ ∀ r' ∈ s'.rows, r'.id < s.nextId → ∃ r ∈ s.rows, { r with live := r'.live } = r'

theorem JobStore.Keeps.refl (s : JobStore) : s.Keeps s := ⟨le_rfl, fun r hr _ => ⟨r, hr, rfl⟩⟩

theorem JobStore.Keeps.trans {s₁ s₂ s₃ : JobStore} (h₁ : s₁.Keeps s₂) (h₂ : s₂.Keeps s₃) : s₁.Keeps s₃ := by
  refine ⟨h₁.1.trans h₂.1, fun r₃ hr₃ hlt => ?_⟩
  obtain ⟨r₂, hr₂, heq₂⟩ := h₂.2 r₃ hr₃ (hlt.trans_le h₁.1)
  have hid : r₂.id = r₃.id := by rw [← heq₂]
  obtain ⟨r₁, hr₁, heq₁⟩ := h₁.2 r₂ hr₂ (hid ▸ hlt)
  refine ⟨r₁, hr₁, ?_⟩
  rw [← heq₂, ← heq₁]

theorem JobStore.keeps_apply (s : JobStore) (ch : Change) : s.Keeps (s.apply ch) := by
  cases ch with
  | insert gap job =>
    simp only [JobStore.apply, JobStore.insert]
    split_ifs with h
    · refine ⟨by simp only; omega, fun r hr hlt => ?_⟩
      rcases List.mem_append.mp hr with hr | hr
      · exact ⟨r, hr, rfl⟩
      · obtain rfl := List.mem_singleton.mp hr
        exact absurd hlt (by simp only; omega)
    · exact .refl s
  | update id live =>
    refine ⟨le_rfl, fun r hr _ => ?_⟩
    rcases mem_updateWhere.mp hr with ⟨hr, -⟩ | ⟨r', hr', -, rfl⟩
    · exact ⟨r, hr, rfl⟩
    · exact ⟨r', hr', rfl⟩
  | delete id => exact ⟨le_rfl, fun r hr _ => ⟨r, List.mem_of_mem_filter hr, rfl⟩⟩

theorem JobStore.keeps_run (changes : List Change) : ∀ s : JobStore, s.Keeps (s.run changes) := by
  induction changes with
  | nil => exact JobStore.Keeps.refl
  | cons ch changes ih => exact fun s => (s.keeps_apply ch).trans (ih (s.apply ch))

theorem keeps_storeAt (s₀ : JobStore) (visits : ℕ → Visit) (k : ℕ) :
    (storeAt s₀ visits 0).Keeps (storeAt s₀ visits k) := by
  induction k with
  | zero => exact .refl _
  | succ k ih => exact ih.trans (JobStore.keeps_run _ _)

/-- A job that matches the filter on the first request matches it as long as it exists. -/
theorem accepts_storeAt {r r' : ListedJob} (hr : r ∈ (storeAt s₀ visits 0).rows) (hacc : q.accepts r = true)
    (hr' : r' ∈ (storeAt s₀ visits k).rows) (hid : r'.id = r.id) : q.accepts r' = true := by
  have hlt := ((storeAt s₀ visits 0).lt r hr).2
  obtain ⟨r₀, hr₀, heq⟩ := (keeps_storeAt s₀ visits k).2 r' hr' (hid ▸ hlt)
  have hsame : r₀ = r := by
    refine eq_of_key (storeAt s₀ visits 0).nodup hr₀ hr ?_
    rw [← hid, ← heq]
  rw [← heq, hsame]
  exact hacc

/-! ### The watermark -/

theorem le_foldl_max (ns : List ℕ) : ∀ a : ℕ, a ≤ ns.foldl max a ∧ ∀ n ∈ ns, n ≤ ns.foldl max a := by
  induction ns with
  | nil => exact fun a => ⟨le_rfl, by simp⟩
  | cons m ns ih =>
    intro a
    obtain ⟨h1, h2⟩ := ih (max a m)
    refine ⟨(le_max_left a m).trans h1, ?_⟩
    intro n hn
    rcases List.mem_cons.mp hn with rfl | hn
    · exact (le_max_right a n).trans h1
    · exact h2 n hn

theorem foldl_max_lt {b : ℕ} (ns : List ℕ) : ∀ {a : ℕ}, a < b → (∀ n ∈ ns, n < b) → ns.foldl max a < b := by
  induction ns with
  | nil => exact fun ha _ => ha
  | cons m ns ih =>
    intro a ha hns
    exact ih (max_lt ha (hns m (by simp))) fun n hn => hns n (by simp [hn])

theorem le_highWatermark (hr : r ∈ s.rows) : r.id ≤ s.highWatermark r.projectId :=
  (le_foldl_max _ 0).2 r.id (List.mem_map_of_mem (List.mem_filter.mpr ⟨hr, by simp⟩))

theorem highWatermark_le_maxId (s : JobStore) (project : ℕ) : s.highWatermark project ≤ maxId := by
  have hlt : s.highWatermark project < s.nextId := by
    refine foldl_max_lt _ s.pos fun n hn => ?_
    obtain ⟨r, hr, rfl⟩ := List.mem_map.mp hn
    exact (s.lt r (List.mem_of_mem_filter hr)).2
  have := s.le
  omega

/-! ### The walk loses and repeats nothing -/

/-- **Paging.**  Whatever happens to the store between two requests, the walk ends; its ids are strictly
increasing, none above the watermark of the first page or of another project; a job of the filter that
exists and is readable throughout is returned exactly once; and a page is the last one only if no further
row, readable or not, was left for it. -/
theorem job_walk_complete (codec : Codec) (q : ListFilter) (s₀ : JobStore) (visits : ℕ → Visit) :
    let hw := (storeAt s₀ visits 0).highWatermark q.projectId
    ∃ pages : List JobPage, (∀ n, hw < n → walk codec q s₀ visits n = .ok pages) ∧ pages.length ≤ hw + 1 ∧
      (pageIds pages).Pairwise (· < ·) ∧
      (∀ id ∈ pageIds pages, id ≤ hw) ∧
      (∀ j p, pages[j]? = some p → ∀ item ∈ p.jobs, ∃ r ∈ (storeAt s₀ visits j).rows,
        itemOf r = item ∧ r.projectId = q.projectId) ∧
      (∀ r ∈ (storeAt s₀ visits 0).rows, q.accepts r = true →
        (∀ j < pages.length, ∃ r' ∈ (storeAt s₀ visits j).rows, r'.id = r.id ∧ (visits j).access.sees r' = true) →
          (pageIds pages).count r.id = 1) ∧
      ∃ cs : List Cursor, cs.length = pages.length ∧ ∀ j c p, cs[j]? = some c → pages[j]? = some p →
        p = pageAt q s₀ visits j (some c) ∧ p.highWatermark = hw ∧
          (j + 1 = pages.length ↔ (rowsAt q s₀ visits j c).length ≤ (visits j).limit) := by
  intro hw
  have hmax : hw ≤ maxId := highWatermark_le_maxId _ _
  obtain ⟨pages, hwalked, hrun⟩ := exists_walked codec q s₀ visits hw 0
    (firstCursor (storeAt s₀ visits 0) q (visits 0).access) (by simp [firstCursor, hw]) hmax
  obtain ⟨cs, hlen, hcs⟩ := hwalked.cursors
  refine ⟨pages, ?_, by simpa [firstCursor] using hwalked.length_le, hwalked.increasing,
    fun id hid => (hwalked.within id hid).2, ?_, ?_, cs, hlen, ?_⟩
  · intro n hn
    rw [walk_eq]
    exact hrun n (by simpa [firstCursor] using hn)
  · intro j p hp item hitem
    have hj : j < cs.length := by
      rw [hlen]
      exact (List.getElem?_eq_some_iff.mp hp).1
    obtain ⟨rfl, -, -⟩ := hcs j cs[j] p (List.getElem?_eq_getElem hj) hp
    rw [Nat.zero_add, pageAt, listJobs_some, cutPage_jobs] at hitem
    obtain ⟨r, hr, rfl⟩ := List.mem_map.mp hitem
    obtain ⟨hrow, hsel, -⟩ := mem_rowsPast.mp (List.mem_of_mem_take (List.mem_of_mem_filter hr))
    have hacc := (selects_iff.mp hsel).1
    refine ⟨r, hrow, rfl, ?_⟩
    simp only [ListFilter.accepts, Bool.and_eq_true, decide_eq_true_eq] at hacc
    exact hacc.1.1
  · intro r hr hacc hseen
    have hproj : r.projectId = q.projectId := by
      simp only [ListFilter.accepts, Bool.and_eq_true, decide_eq_true_eq] at hacc
      exact hacc.1.1
    have hle : r.id ≤ hw := by
      have h := le_highWatermark hr
      rwa [hproj] at h
    have hmem : r.id ∈ pageIds pages := by
      refine hwalked.complete ((storeAt s₀ visits 0).lt r hr).1 hle fun j hj => ?_
      obtain ⟨r', hr', hid, hsees⟩ := hseen j hj
      rw [Nat.zero_add]
      exact ⟨r', hr', hid, accepts_storeAt hr hacc hr' hid, hsees⟩
    exact List.count_eq_one_of_mem (hwalked.increasing.imp fun h => h.ne) hmem
  · intro j c p hc hp
    obtain ⟨hpage, -, hlast⟩ := hcs j c p hc hp
    rw [Nat.zero_add] at hpage hlast
    exact ⟨hpage, hwalked.watermark p (List.mem_of_getElem? hp), hlast⟩

end Broker.Services
