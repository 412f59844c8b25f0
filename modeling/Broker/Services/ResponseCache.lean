import Broker.Db.Models
import Broker.Lib.JsonDump
import Broker.Lib.OrderedDict
import Broker.Lib.Trans

/-!
# Broker.Services.ResponseCache — the in-process response cache

An ordered dictionary from the digest of the request's text to the time and the text of an answer.  Entries
expire by capability, a hit moves its entry to the end, a put overwrites and evicts the oldest.  The request's
text is canonical (`Val.dumps_eq_iff`), so two requests share an entry exactly when they are the same request.
-/

namespace Broker.Services

open Broker.Lib Broker.Db

/-- `_MAX_ENTRIES`. -/
def maxEntries : ℕ := 2000

/-- `_TTL_S`. -/
def ttl (capability : String) : Option Time :=
  if capability = "translate" then some (seconds (24 * 60 * 60))
  else if capability = "prefilter" then some (seconds (10 * 60))
  else if capability = "vision" then some (seconds (24 * 60 * 60))
  else none

def isCacheable (capability : String) : Bool := (ttl capability).isSome

/-- The arguments `get` and `put` share; the documents are dictionaries at every depth, `None` is `null`. -/
structure CacheRequest (φ : Type) where
  capability : String
  messages : Val φ
  model : Option String
  maxTokens : ℤ
  temperature : φ
  projectId : ℤ
  responseFormat : Val φ := .null
  tools : Val φ := .null
  toolChoice : Val φ := .null
  dicts : messages.Dict ∧ responseFormat.Dict ∧ tools.Dict ∧ toolChoice.Dict

namespace CacheRequest

variable {φ : Type}

/-- The list `_key` serialises. -/
def payload (r : CacheRequest φ) : Val φ :=
  .arr [.int r.projectId, .str r.capability, r.messages, r.model.elim .null .str, .int r.maxTokens,
    .float r.temperature, r.responseFormat, r.tools, r.toolChoice]

/-- The same request: equal arguments, JSON objects compared up to the order of their keys. -/
structure SameAs (r r' : CacheRequest φ) : Prop where
  projectId : r.projectId = r'.projectId
  capability : r.capability = r'.capability
  messages : r.messages.Same r'.messages
  model : r.model = r'.model
  maxTokens : r.maxTokens = r'.maxTokens
  temperature : r.temperature = r'.temperature
  responseFormat : r.responseFormat.Same r'.responseFormat
  tools : r.tools.Same r'.tools
  toolChoice : r.toolChoice.Same r'.toolChoice

end CacheRequest

section Cache

variable {φ : Type} (F : FloatText φ) (sha256 : String → String)

/-- The text `_key` hashes. -/
def keyText (r : CacheRequest φ) : String := String.ofList (Val.dumps (plainStyle F) r.payload)

/-- `_key`. -/
def cacheKey (r : CacheRequest φ) : String := sha256 (keyText F r)

/-- `_store`: digest, time and text, the oldest entry first. -/
abbrev CacheStore := List (String × (Time × String))

/-- `get` past the check of the capability, whose limit is `limit`. -/
def cacheRead (now limit : Time) (k : String) (store : CacheStore) : CacheStore × Option String :=
  match OrderedDict.get store k with
  | none => (store, none)
  | some (storedAt, text) =>
    if now - storedAt > limit then (OrderedDict.pop store k, none)
    else (OrderedDict.moveToEnd store k, some text)

def cacheGet (now : Time) (r : CacheRequest φ) (store : CacheStore) : CacheStore × Option String :=
  match ttl r.capability with
  | none => (store, none)
  | some limit => cacheRead now limit (cacheKey F sha256 r) store

def cachePut (now : Time) (r : CacheRequest φ) (text : String) (store : CacheStore) : CacheStore :=
  if isCacheable r.capability = false ∨ text = "" then store
  else
    let k := cacheKey F sha256 r
    OrderedDict.evict maxEntries (OrderedDict.moveToEnd (OrderedDict.setItem store k (now, text)) k)

/-! ### Runs -/

inductive CacheOp (φ : Type) where
  | get (now : Time) (r : CacheRequest φ)
  | put (now : Time) (r : CacheRequest φ) (text : String)

def CacheOp.now : CacheOp φ → Time
  | .get now _ => now
  | .put now _ _ => now

def CacheOp.request : CacheOp φ → CacheRequest φ
  | .get _ r => r
  | .put _ r _ => r

/-- The store and the last time read. -/
structure CacheSys where
  store : CacheStore := []
  clock : Time := 0

/-- One call; the clock does not run backwards. -/
def CacheSys.step (s : CacheSys) (op : CacheOp φ) : Option CacheSys :=
  if op.now < s.clock then none
  else match op with
    | .get now r => some { store := (cacheGet F sha256 now r s.store).1, clock := now }
    | .put now r text => some { store := cachePut F sha256 now r text s.store, clock := now }

end Cache

/-! ### The key is the request -/

variable {φ : Type} {F : FloatText φ} {sha256 : String → String}

theorem CacheRequest.dict_payload (r : CacheRequest φ) : r.payload.Dict := by
  have hm : (r.model.elim .null .str : Val φ).Dict := by cases r.model <;> trivial
  exact ⟨trivial, trivial, r.dicts.1, hm, trivial, trivial, r.dicts.2.1, r.dicts.2.2.1, r.dicts.2.2.2, trivial⟩

/-- `None` and a model name are told apart. -/
theorem same_model (m m' : Option String) :
    (m.elim .null .str : Val φ).Same (m'.elim .null .str) ↔ m = m' := by
  cases m <;> cases m' <;> simp [eq_comm]

theorem CacheRequest.same_payload {r r' : CacheRequest φ} : r.payload.Same r'.payload ↔ r.SameAs r' := by
  simp only [payload, Val.same_arr, Val.sameItems_cons, Val.same_int, Val.same_str, Val.same_float, same_model,
    Val.sameItems_nil, and_true, Val.int.injEq, Val.str.injEq, Val.float.injEq]
  constructor
  · rintro ⟨h1, h2, h3, h4, h5, h6, h7, h8, h9⟩
    exact ⟨h1.symm, h2.symm, h3, h4, h5.symm, h6.symm, h7, h8, h9⟩
  · rintro ⟨h1, h2, h3, h4, h5, h6, h7, h8, h9⟩
    exact ⟨h1.symm, h2.symm, h3, h4, h5.symm, h6.symm, h7, h8, h9⟩

/-- Two requests have one text exactly when they are the same request. -/
theorem keyText_eq_iff {r r' : CacheRequest φ} : keyText F r = keyText F r' ↔ r.SameAs r' := by
  unfold keyText
  rw [String.ofList_inj, Val.dumps_eq_iff (plainStyle_lawful F) r.dict_payload, CacheRequest.same_payload]

/-! ### What an entry of the store stands for -/

/-- No two requests of the run collide under the hash. -/
def CollisionFree (F : FloatText φ) (sha256 : String → String) (rs : List (CacheRequest φ)) : Prop :=
  ∀ r ∈ rs, ∀ r' ∈ rs, cacheKey F sha256 r = cacheKey F sha256 r' → keyText F r = keyText F r'

/-- `text` was put at time `t` for a request with the digest `k`, and no later put for that digest stored
anything. -/
def LastPut (F : FloatText φ) (sha256 : String → String) (ops : List (CacheOp φ)) (k : String) (t : Time)
    (text : String) : Prop :=
  ∃ pre r post, ops = pre ++ .put t r text :: post ∧ cacheKey F sha256 r = k ∧
    isCacheable r.capability = true ∧ text ≠ "" ∧
    ∀ t' r' text', .put t' r' text' ∈ post → cacheKey F sha256 r' = k → isCacheable r'.capability = true →
      text' = ""

theorem LastPut.concat {ops : List (CacheOp φ)} {k : String} {t : Time} {text : String}
    (h : LastPut F sha256 ops k t text) {op : CacheOp φ}
    (hop : ∀ t' r' text', op = .put t' r' text' → cacheKey F sha256 r' = k →
      isCacheable r'.capability = true → text' = "") : LastPut F sha256 (ops ++ [op]) k t text := by
  obtain ⟨pre, r, post, rfl, hk, hc, hne, hlast⟩ := h
  refine ⟨pre, r, post ++ [op], by simp, hk, hc, hne, ?_⟩
  intro t' r' text' hmem hk' hc'
  rcases List.mem_append.mp hmem with hmem | hmem
  · exact hlast t' r' text' hmem hk' hc'
  · exact hop t' r' text' (List.mem_singleton.mp hmem).symm hk' hc'

/-- Every entry of the store is the last put of its digest, there are at most 2000 of them, and the clock has
passed every call. -/
structure CacheSys.Inv (F : FloatText φ) (sha256 : String → String) (ops : List (CacheOp φ)) (s : CacheSys) :
    Prop where
  entries : ∀ e ∈ s.store, LastPut F sha256 ops e.1 e.2.1 e.2.2
  size : s.store.length ≤ maxEntries
  times : ∀ op ∈ ops, op.now ≤ s.clock

/-- A read misses, drops an expired entry, or touches the one whose text it returns. -/
theorem cacheRead_cases (now limit : Time) (k : String) (store : CacheStore) :
    cacheRead now limit k store = (store, none) ∨
    cacheRead now limit k store = (OrderedDict.pop store k, none) ∨
    ∃ t text, (k, t, text) ∈ store ∧ now - t ≤ limit ∧
      cacheRead now limit k store = (OrderedDict.moveToEnd store k, some text) := by
  unfold cacheRead
  split
  · exact .inl rfl
  · rename_i t text hget
    by_cases hold : now - t > limit
    · exact .inr (.inl (if_pos hold))
    · exact .inr (.inr ⟨t, text, OrderedDict.mem_of_get hget, not_lt.mp hold, if_neg hold⟩)

theorem cacheGet_cases (F : FloatText φ) (sha256 : String → String) (now : Time) (r : CacheRequest φ)
    (store : CacheStore) :
    cacheGet F sha256 now r store = (store, none) ∨
    ∃ limit, ttl r.capability = some limit ∧
      cacheGet F sha256 now r store = cacheRead now limit (cacheKey F sha256 r) store := by
  unfold cacheGet
  cases h : ttl r.capability with
  | none => exact .inl rfl
  | some limit => exact .inr ⟨limit, rfl, rfl⟩

/-- A `get` only drops or moves entries. -/
theorem cacheGet_store (now : Time) (r : CacheRequest φ) (store : CacheStore) :
    (∀ e ∈ (cacheGet F sha256 now r store).1, e ∈ store) ∧
    (cacheGet F sha256 now r store).1.length ≤ store.length := by
  rcases cacheGet_cases F sha256 now r store with h | ⟨limit, -, h⟩
  · rw [h]
    exact ⟨fun e he => he, le_rfl⟩
  · rw [h]
    rcases cacheRead_cases now limit (cacheKey F sha256 r) store with h | h | ⟨t, text, -, -, h⟩
    · rw [h]
      exact ⟨fun e he => he, le_rfl⟩
    · rw [h]
      exact ⟨fun e he => (OrderedDict.mem_pop.mp he).1, List.length_filter_le _ _⟩
    · rw [h]
      exact ⟨fun e he => OrderedDict.mem_moveToEnd.mp he, (OrderedDict.length_moveToEnd _ _).le⟩

/-- A text `get` returns is the one of an entry of the request's digest, no older than the limit. -/
theorem cacheGet_some {now : Time} {r : CacheRequest φ} {store : CacheStore} {text : String}
    (h : (cacheGet F sha256 now r store).2 = some text) :
    ∃ limit t, ttl r.capability = some limit ∧ (cacheKey F sha256 r, t, text) ∈ store ∧ now - t ≤ limit := by
  rcases cacheGet_cases F sha256 now r store with h' | ⟨limit, hl, h'⟩
  · rw [h'] at h
    cases h
  · rw [h'] at h
    rcases cacheRead_cases now limit (cacheKey F sha256 r) store with h' | h' | ⟨t, text', hmem, hage, h'⟩
    · rw [h'] at h
      cases h
    · rw [h'] at h
      cases h
    · rw [h'] at h
      obtain rfl := Option.some.inj h
      exact ⟨limit, t, hl, hmem, hage⟩

/-- An entry after a put is the one written, or was there before and is superseded by nothing. -/
theorem mem_cachePut {now : Time} {r : CacheRequest φ} {text : String} {store : CacheStore}
    {e : String × (Time × String)} (h : e ∈ cachePut F sha256 now r text store) :
    (e = (cacheKey F sha256 r, now, text) ∧ isCacheable r.capability = true ∧ text ≠ "") ∨
      (e ∈ store ∧ (cacheKey F sha256 r = e.1 → isCacheable r.capability = true → text = "")) := by
  unfold cachePut at h
  split_ifs at h with hskip
  · refine .inr ⟨h, fun _ hc => ?_⟩
    rcases hskip with hno | hempty
    · rw [hc] at hno
      cases hno
    · exact hempty
  · obtain ⟨hc, hne⟩ := not_or.mp hskip
    rcases OrderedDict.mem_setItem.mp (OrderedDict.mem_moveToEnd.mp (OrderedDict.mem_evict h)) with he | ⟨he, hk⟩
    · exact .inl ⟨he, Bool.eq_true_of_not_eq_false hc, hne⟩
    · exact .inr ⟨he, fun hk' => absurd hk'.symm hk⟩

theorem length_cachePut_le (now : Time) (r : CacheRequest φ) (text : String) {store : CacheStore}
    (h : store.length ≤ maxEntries) : (cachePut F sha256 now r text store).length ≤ maxEntries := by
  unfold cachePut
  split_ifs
  · exact h
  · exact OrderedDict.length_evict_le _ _

theorem CacheSys.Inv.times_concat {ops : List (CacheOp φ)} {s : CacheSys} (hi : s.Inv F sha256 ops)
    (op : CacheOp φ) (hnow : s.clock ≤ op.now) : ∀ op' ∈ ops ++ [op], op'.now ≤ op.now := by
  intro op' hop
  rcases List.mem_append.mp hop with hop | hop
  · exact (hi.times op' hop).trans hnow
  · rw [List.mem_singleton.mp hop]

theorem CacheSys.Inv.get {ops : List (CacheOp φ)} {s : CacheSys} (hi : s.Inv F sha256 ops) {now : Time}
    (hnow : s.clock ≤ now) (r : CacheRequest φ) :
    CacheSys.Inv F sha256 (ops ++ [.get now r]) ⟨(cacheGet F sha256 now r s.store).1, now⟩ where
  entries e he := (hi.entries e ((cacheGet_store now r s.store).1 e he)).concat fun _ _ _ h => by cases h
  size := (cacheGet_store now r s.store).2.trans hi.size
  times := hi.times_concat (.get now r) hnow

theorem CacheSys.Inv.put {ops : List (CacheOp φ)} {s : CacheSys} (hi : s.Inv F sha256 ops) {now : Time}
    (hnow : s.clock ≤ now) (r : CacheRequest φ) (text : String) :
    CacheSys.Inv F sha256 (ops ++ [.put now r text]) ⟨cachePut F sha256 now r text s.store, now⟩ := by
  refine ⟨fun e he => ?_, length_cachePut_le now r text hi.size, hi.times_concat (.put now r text) hnow⟩
  rcases mem_cachePut he with ⟨rfl, hc, hne⟩ | ⟨he, hkept⟩
  · -- the entry just written
    exact ⟨ops, r, [], rfl, rfl, hc, hne, by simp⟩
  · -- a put that stores nothing supersedes nothing, and neither does one of another digest
    refine (hi.entries e he).concat ?_
    rintro t' r' text' heq hk hc
    obtain ⟨rfl, rfl, rfl⟩ := by simpa using heq
    exact hkept hk hc

theorem CacheSys.Inv.step {ops : List (CacheOp φ)} {s s' : CacheSys} {op : CacheOp φ}
    (hi : s.Inv F sha256 ops) (h : s.step F sha256 op = some s') : s'.Inv F sha256 (ops ++ [op]) := by
  unfold CacheSys.step at h
  split_ifs at h with hnow
  cases op with
  | get now r =>
    obtain rfl := Option.some.inj h
    exact hi.get (not_lt.mp hnow) r
  | put now r text =>
    obtain rfl := Option.some.inj h
    exact hi.put (not_lt.mp hnow) r text

theorem CacheSys.Inv.run {ops : List (CacheOp φ)} {s : CacheSys} {t₀ : Time}
    (h : Steps (CacheSys.step F sha256) Free { clock := t₀ } ops s) : s.Inv F sha256 ops := by
  induction h with
  | nil => exact ⟨by simp, by simp, by simp⟩
  | snoc _ _ hs ih => exact ih.step hs

/-- **The cache returns what was put.**  In every run with a clock that does not run backwards and a hash
without collisions on the run's requests: a text returned by `get` is the one of the last put that stored
something for the same request, and that put is no older than the capability's limit; the project and the
capability are the caller's, and the capability is cacheable; and the store has at most 2000 entries. -/
theorem response_cache_sound (F : FloatText φ) (sha256 : String → String) (t₀ : Time) {ops : List (CacheOp φ)}
    {s : CacheSys} (h : Steps (CacheSys.step F sha256) Free { clock := t₀ } ops s) (now : Time)
    (hnow : s.clock ≤ now) (r : CacheRequest φ)
    (hfree : CollisionFree F sha256 (r :: ops.map CacheOp.request)) :
    (∀ text, (cacheGet F sha256 now r s.store).2 = some text →
      ∃ limit pre t r' post, ttl r.capability = some limit ∧ ops = pre ++ .put t r' text :: post ∧
        r'.SameAs r ∧ text ≠ "" ∧ t ≤ now ∧ now - t ≤ limit ∧
        (∀ t' r'' text', .put t' r'' text' ∈ post → r''.SameAs r → text' = "") ∧
        r'.projectId = r.projectId ∧ isCacheable r'.capability = true) ∧
    (isCacheable r.capability = false → (cacheGet F sha256 now r s.store).2 = none) ∧
    ∀ text, (cachePut F sha256 now r text s.store).length ≤ 2000 := by
  have hi := CacheSys.Inv.run h
  refine ⟨fun text htext => ?_, fun hno => ?_, fun text => ?_⟩
  · obtain ⟨limit, t, hl, hmem, hage⟩ := cacheGet_some htext
    obtain ⟨pre, r', post, hops, hk, hc, hne, hlast⟩ := hi.entries _ hmem
    have hsame : r'.SameAs r := by
      refine keyText_eq_iff.mp (hfree r' ?_ r (by simp) hk)
      simp [hops, CacheOp.request]
    refine ⟨limit, pre, t, r', post, hl, hops, hsame, hne, ?_, hage, ?_, hsame.projectId, hc⟩
    · exact (hi.times (.put t r' text) (by simp [hops])).trans hnow
    · intro t' r'' text' hmem' hsame'
      refine hlast t' r'' text' hmem' ?_ ?_
      · unfold cacheKey
        rw [keyText_eq_iff.mpr hsame']
      · rw [hsame'.capability, isCacheable, hl]
        rfl
  · rcases cacheGet_cases F sha256 now r s.store with h' | ⟨limit, hl, -⟩
    · rw [h']
    · rw [isCacheable, hl] at hno
      cases hno
  · exact (hi.put hnow r text).size

/-- The texts of the floats `0.0, 1.0, 2.0, …`. -/
def naturalFloats : FloatText ℕ where
  repr n := Nat.toDigits 10 n ++ ['.', '0']
  head n := by
    cases h : Nat.toDigits 10 n with
    | nil => exact absurd h Nat.toDigits_ne_nil
    | cons c t =>
      exact ⟨c, t ++ ['.', '0'], rfl,
        Val.kindOfChar_of_isDigit (isDigit_of_mem_toDigits (n := n) (h ▸ List.mem_cons_self))⟩
  delim n c hc := by
    rcases List.mem_append.mp hc with hc | hc
    · exact isDelim_of_isDigit (isDigit_of_mem_toDigits hc)
    · rcases List.mem_pair.mp hc with rfl | rfl <;> decide
  inj h := toDigits_injective (List.append_cancel_right h)
  int n m h := by
    -- an integer's text has no point
    have hdot : '.' ∈ intText m := by
      rw [← h]
      simp
    unfold intText at hdot
    split_ifs at hdot
    · rcases List.mem_cons.mp hdot with hdot | hdot
      · cases hdot
      · exact absurd (isDigit_of_mem_toDigits hdot) (by decide)
    · exact absurd (isDigit_of_mem_toDigits hdot) (by decide)

/-- A classification request at temperature 0. -/
def prefilterRequest : CacheRequest ℕ where
  capability := "prefilter"
  messages := .arr [.obj [("role", .str "user"), ("content", .str "ok")]]
  model := none
  maxTokens := 16
  temperature := 0
  projectId := 7
  dicts := by simp [Val.Dict, Val.DictItems, Val.DictEntries]

/-- Five minutes after it was put, an answer is returned, and it is the one that was put. -/
theorem response_cache_sound_hit :
    ∃ s, Steps (CacheSys.step naturalFloats id) Free { clock := 0 } [.put 0 prefilterRequest "yes"] s ∧
      (cacheGet naturalFloats id (seconds 300) prefilterRequest s.store).2 = some "yes" ∧
      ∃ pre t r' post, [CacheOp.put 0 prefilterRequest "yes"] = pre ++ .put t r' "yes" :: post ∧
        r'.SameAs prefilterRequest ∧ seconds 300 - t ≤ seconds 600 := by
  have hstep : CacheSys.step naturalFloats id { clock := 0 } (.put 0 prefilterRequest "yes")
      = some ⟨[(cacheKey naturalFloats id prefilterRequest, 0, "yes")], 0⟩ := by
    simp [CacheSys.step, CacheOp.now, cachePut, prefilterRequest, isCacheable, ttl, OrderedDict.setItem,
      OrderedDict.moveToEnd, OrderedDict.pop, OrderedDict.evict, maxEntries]
  have hrun := Steps.single (C := Free) trivial hstep
  have hget : (cacheGet naturalFloats id (seconds 300) prefilterRequest
      [(cacheKey naturalFloats id prefilterRequest, 0, "yes")]).2 = some "yes" := by
    simp [cacheGet, cacheRead, prefilterRequest, ttl, OrderedDict.get, seconds]
  obtain ⟨limit, pre, t, r', post, hl, hops, hsame, -, -, hage, -⟩ :=
    (response_cache_sound naturalFloats id 0 hrun (seconds 300) (by decide) prefilterRequest
      fun _ _ _ _ h => h).1 "yes" hget
  obtain rfl : seconds 600 = limit := by simpa [prefilterRequest, ttl] using hl
  exact ⟨_, hrun, hget, pre, t, r', post, hops, hsame, hage⟩

end Broker.Services
