import Mathlib.Data.Finset.Image
import Broker.Db.Models
import Broker.Lib.PyConv

/-!
# Broker.Routing.SharedState — the readers of the cross-worker store

`Store` is what `client.get` gives under each key, outages included.  Each reader decodes and converts in its
own way under its own `except` clause; for each, one lemma says on which stored texts it returns (`_isOk`) and
one what it then returns.
-/

namespace Broker.Routing

open Broker.Db Broker.Lib Broker.Lib.PyConv

/-! ### The store -/

/-- What one `client.get` gives: no client, an error of the client, no entry, or the text under the key. -/
inductive Fetch where
  | disabled
  | failed
  | miss
  | text (raw : String)
  deriving DecidableEq, Repr

abbrev Store := String → Fetch

/-- `_aff_key`. -/
def affKey (project : ℤ) (provider : String) : String := s!"aib:aff:{project}:{provider}"

/-- `_SAT_KEY`. -/
def satKey : String := "aib:sat"

/-- `route_key`, its digest a parameter. -/
def routeKey (digest : String → String) (project : ℤ) (workflow : Option String) (capability : String)
    (pinned : Option String) : String :=
  let family := digest (workflow.getD "" ++ "\x1f" ++ capability ++ "\x1f" ++ pinned.getD "")
  s!"aib:raff:{project}:{family}"

/-! ### The readers -/

variable (I : Interp)

/-- `except (ValueError, TypeError)`. -/
def caught : PyError → Bool
  | .valueError | .typeError => true
  | _ => false

/-- The exception of a failed `json.loads`. -/
def loadError : LoadError → PyError
  | .decode | .fuel => .valueError
  | .recursion => .recursionError

/-- `json.loads`. -/
def loads (raw : String) : Except PyError (Val PyFloat) := (JsonLoad.loads I.room raw).mapError loadError

/-- The value of a body, or a default where it raises what the clause catches. -/
def orElse {α : Type} (default : α) : Except PyError α → Except PyError α
  | .error e => if caught e then .ok default else .error e
  | r => r

/-- `get_json`; `None` is the document `null`. -/
def getJson : Fetch → Except PyError (Val PyFloat)
  | .text raw => orElse .null (loads I raw)
  | _ => .ok .null

/-- The conversion of `get_affinity`, outside any `try`. -/
def pinOf : Val PyFloat → Except PyError (Option ℤ)
  | .null => .ok none
  | v => (toInt v).map some

/-- `get_affinity`. -/
def getAffinity (store : Store) (project : ℤ) (provider : String) : Except PyError (Option ℤ) :=
  (getJson I (store (affKey project provider))).bind pinOf

/-- `iter(v)`: the items of a list, the keys of a dictionary, the characters of a string. -/
def iter : Val PyFloat → Except PyError (List (Val PyFloat))
  | .arr xs => .ok xs
  | .obj es => .ok (es.map fun e => .str e.1)
  | .str s => .ok (s.toList.map fun c => .str (String.singleton c))
  | _ => .error .typeError

/-- `int(x) for x in xs`. -/
def toInts : List (Val PyFloat) → Except PyError (List ℤ)
  | [] => .ok []
  | x :: xs => (toInt x).bind fun n => (toInts xs).map fun ns => n :: ns

/-- `frozenset(int(x) for x in v)`. -/
def idsOf (v : Val PyFloat) : Except PyError (Finset ℤ) :=
  (iter v).bind fun xs => (toInts xs).map List.toFinset

/-- `get_saturated`. -/
def getSaturated (store : Store) : Except PyError (Option (Finset ℤ)) :=
  match store satKey with
  | .text raw => orElse none ((loads I raw).bind fun v => (idsOf v).map some)
  | _ => .ok none

/-! ### The pins -/

structure AffinityTarget where
  provider : String
  model : String
  keyId : ℤ

/-- The in-process dictionaries of `affinity` and `selector`; a verdict never fetched has no time. -/
structure Local where
  affinity : List ((ℤ × String) × (ℤ × Time)) := []
  routes : List (String × (AffinityTarget × Time)) := []
  saturated : Finset ℤ := ∅
  fetchedAt : Option Time := none

/-- An entry of a dictionary that is not older than `ttl`, and the dictionary without it otherwise. -/
def fresh {κ α : Type} [DecidableEq κ] (ttl now : Time) (d : List (κ × (α × Time))) (k : κ) :
    Option α × List (κ × (α × Time)) :=
  match OrderedDict.get d k with
  | none => (none, d)
  | some (v, notedAt) => if ttl < now - notedAt then (none, OrderedDict.pop d k) else (some v, d)

/-- The settings and clocks a call reads. -/
structure Clock where
  now : Time
  ttl : Time

/-- `_affinity_for`. -/
def affinityFor (clk : Clock) (L : Local) (project : ℤ) (provider : String) : Option ℤ × Local :=
  let r := fresh clk.ttl clk.now L.affinity (project, provider)
  (r.1, { L with affinity := r.2 })

/-- `_affinity_for_shared`. -/
def affinityForShared (store : Store) (clk : Clock) (L : Local) (project : Option ℤ) (provider : String) :
    Except PyError (Option ℤ) × Local :=
  match project with
  | none => (.ok none, L)
  | some project =>
    match getAffinity I store project provider with
    | .error e => (.error e, L)
    | .ok (some shared) => (.ok (some shared), L)
    | .ok none =>
      let r := affinityFor clk L project provider
      (.ok r.1, r.2)

/-- `AffinityTarget(str(raw["p"]), str(raw["m"]), int(raw["k"]))`. -/
def targetOf (p m k : Val PyFloat) : Except PyError AffinityTarget :=
  (toStr I p).bind fun p => (toStr I m).bind fun m => (toInt k).map fun k => ⟨p, m, k⟩

/-- The target a stored document names: `None` unless it is a dictionary with all three fields that
convert. -/
def sharedTarget (raw : Val PyFloat) : Except PyError (Option AffinityTarget) :=
  match raw with
  | .obj es =>
    match OrderedDict.get es "p", OrderedDict.get es "m", OrderedDict.get es "k" with
    | some p, some m, some k => orElse none ((targetOf I p m k).map some)
    | _, _, _ => .ok none
  | _ => .ok none

/-- `lookup_route`, at the key of the request's family. -/
def lookupRoute (store : Store) (clk : Clock) (L : Local) (key : String) :
    Except PyError (Option AffinityTarget) × Local :=
  match (getJson I (store key)).bind (sharedTarget I) with
  | .error e => (.error e, L)
  | .ok (some t) => (.ok (some t), L)
  | .ok none =>
    let r := fresh clk.ttl clk.now L.routes key
    (.ok r.1, { L with routes := r.2 })

/-! ### When a reader returns -/

/-- A fetched text decodes to a document that satisfies `P`, or not at all; it is not nested past the
stack. -/
def Reads (P : Val PyFloat → Prop) : Fetch → Prop
  | .text raw =>
    match JsonLoad.loads I.room raw with
    | .ok v => P v
    | .error e => e ≠ .recursion
  | _ => True

/-- `get_affinity` converts the document. -/
def IsPin : Val PyFloat → Prop
  | .null => True
  | v => IsIntLike v = true

/-- No infinity stands before the first element `int` refuses. -/
def NoInfinityFirst : List (Val PyFloat) → Prop
  | [] => True
  | x :: xs => IsInfinite x = false ∧ (IsIntLike x = true → NoInfinityFirst xs)

/-- `get_saturated` converts the document, or fails with what it catches. -/
def IsVerdict : Val PyFloat → Prop
  | .arr xs => NoInfinityFirst xs
  | _ => True

/-- `lookup_route` converts the document, or fails with what it catches. -/
def IsRoute : Val PyFloat → Prop
  | .obj es =>
    ∀ p m k, OrderedDict.get es "p" = some p → OrderedDict.get es "m" = some m →
      OrderedDict.get es "k" = some k →
      depth p ≤ I.reprRoom ∧ depth m ≤ I.reprRoom ∧ IsInfinite k = false
  | _ => True

theorem orElse_isOk {α : Type} {d : α} {r : Except PyError α} :
    (orElse d r).isOk = true ↔ ∀ e, r = .error e → caught e = true := by
  cases r with
  | error e =>
    simp only [orElse]
    split_ifs with h
    · simp [h, Except.isOk, Except.toBool]
    · simp [h, Except.isOk, Except.toBool]
  | ok v => simp [orElse, Except.isOk, Except.toBool]

theorem isOk_ok {ε α : Type} (a : α) : (.ok a : Except ε α).isOk = true := rfl

theorem not_isOk_error {ε α : Type} (e : ε) : ¬ (.error e : Except ε α).isOk = true := Bool.false_ne_true

theorem isOk_map {ε α β : Type} (g : α → β) (r : Except ε α) : (r.map g).isOk = r.isOk := by
  cases r <;> rfl

/-- **What follows `get_json` outside its `try`** returns exactly when the fetch reads, given that it does so
document by document and on `None`. -/
theorem getJson_bind_isOk {α : Type} {P : Val PyFloat → Prop} {body : Val PyFloat → Except PyError α}
    (hbody : ∀ v, (body v).isOk = true ↔ P v) (hnull : P .null) (f : Fetch) :
    ((getJson I f).bind body).isOk = true ↔ Reads I P f := by
  cases f with
  | text raw =>
    simp only [Reads, getJson, loads]
    cases h : JsonLoad.loads I.room raw with
    | ok v => exact hbody v
    | error e =>
      cases e with
      | decode =>
        -- a corrupt payload is a miss
        refine iff_of_true ((hbody .null).mpr hnull) (by simp)
      | recursion => exact iff_of_false (not_isOk_error _) (by simp)
      | fuel => exact absurd h (JsonLoad.loads_ne_fuel I.room raw)
  | _ => exact iff_of_true ((hbody .null).mpr hnull) trivial

/-- `get_json` returns exactly when the text is not nested past the stack. -/
theorem getJson_isOk (f : Fetch) : (getJson I f).isOk = true ↔ Reads I (fun _ => True) f := by
  have hbody : ∀ v : Val PyFloat, (.ok v : Except PyError _).isOk = true ↔
    True := fun v => iff_of_true rfl trivial
  rw [← getJson_bind_isOk I hbody trivial f]
  cases getJson I f <;> rfl

theorem pinOf_isOk (v : Val PyFloat) : (pinOf v).isOk = true ↔ IsPin v := by
  cases v with
  | null => exact iff_of_true (isOk_ok _) trivial
  | _ =>
    simp only [pinOf, IsPin]
    rw [isOk_map, toInt_isOk]

/-- `get_affinity` has no clause of its own: it returns only where `int` does. -/
theorem getAffinity_isOk (store : Store) (project : ℤ) (provider : String) :
    (getAffinity I store project provider).isOk = true ↔ Reads I IsPin (store (affKey project provider)) :=
  getJson_bind_isOk I pinOf_isOk trivial _

theorem affinityForShared_isOk (store : Store) (clk : Clock) (L : Local) (project : Option ℤ)
    (provider : String) :
    (affinityForShared I store clk L project provider).1.isOk = true ↔
      ∀ pid, project = some pid → Reads I IsPin (store (affKey pid provider)) := by
  cases project with
  | none => exact iff_of_true (isOk_ok _) (by simp)
  | some pid =>
    simp only [Option.some.injEq, forall_eq', ← getAffinity_isOk, affinityForShared]
    cases getAffinity I store pid provider with
    | error e => rfl
    | ok pin => cases pin <;> rfl

/-- An uncaught exception of the conversion is the `OverflowError` of an infinity before any refused
element. -/
theorem toInts_caught (xs : List (Val PyFloat)) :
    (∀ e, toInts xs = .error e → caught e = true) ↔ NoInfinityFirst xs := by
  induction xs with
  | nil => exact iff_of_true (by simp [toInts]) trivial
  | cons x xs ih =>
    simp only [toInts, NoInfinityFirst, ← toInt_isOk]
    cases hx : toInt x with
    | error e =>
      rcases toInt_error hx with ⟨hinf, rfl⟩ | ⟨hinf, he⟩
      · simp [hinf, Except.bind, caught]
      · rcases he with rfl | rfl <;> simp [hinf, Except.bind, caught, Except.isOk, Except.toBool]
    | ok n =>
      have hinf := not_isInfinite_of_toInt hx
      rw [← ih]
      simp only [hinf, isOk_ok, true_implies, true_and, Except.bind]
      cases toInts xs <;> simp [Except.map]

theorem noInfinityFirst_of_strs (ss : List String) : NoInfinityFirst (ss.map .str) := by
  induction ss with
  | nil => trivial
  | cons s ss ih => exact ⟨rfl, fun _ => ih⟩

theorem idsOf_caught (v : Val PyFloat) : (∀ e, idsOf v = .error e → caught e = true) ↔ IsVerdict v := by
  have hmap : ∀ xs, (∀ e, (toInts xs).map List.toFinset = .error e → caught e = true) ↔
    NoInfinityFirst xs := by
    intro xs
    rw [← toInts_caught]
    cases toInts xs <;> simp [Except.map]
  cases v with
  | arr xs => exact hmap xs
  | obj es =>
    refine iff_of_true ((hmap _).mpr ?_) trivial
    simpa [Function.comp_def] using noInfinityFirst_of_strs (es.map Prod.fst)
  | str s =>
    refine iff_of_true ((hmap _).mpr ?_) trivial
    simpa [Function.comp_def] using noInfinityFirst_of_strs (s.toList.map String.singleton)
  | _ => exact iff_of_true (by simp [idsOf, iter, Except.bind, caught]) trivial

theorem getSaturated_isOk (store : Store) :
    (getSaturated I store).isOk = true ↔ Reads I IsVerdict (store satKey) := by
  unfold getSaturated
  cases store satKey with
  | text raw =>
    simp only [Reads, loads, orElse_isOk]
    cases h : JsonLoad.loads I.room raw with
    | ok v =>
      refine Iff.trans ?_ (idsOf_caught v)
      cases hids : idsOf v <;> simp [Except.mapError, Except.bind, Except.map, hids]
    | error e =>
      cases e with
      | decode => simp [Except.mapError, Except.bind, loadError, caught]
      | recursion => simp [Except.mapError, Except.bind, loadError, caught]
      | fuel => exact absurd h (JsonLoad.loads_ne_fuel I.room raw)
  | _ => exact iff_of_true (isOk_ok _) trivial

theorem targetOf_caught (p m k : Val PyFloat) :
    (∀ e, targetOf I p m k = .error e → caught e = true) ↔
      depth p ≤ I.reprRoom ∧ depth m ≤ I.reprRoom ∧ IsInfinite k = false := by
  have hstr : ∀ v, depth v ≤ I.reprRoom ↔ (toStr I v).isOk = true := fun v => by rw [toStr_isOk]; simp
  rw [hstr, hstr]
  unfold targetOf
  cases hp : toStr I p with
  | error e => simp [toStr_error hp, Except.bind, caught, Except.isOk, Except.toBool]
  | ok p =>
    cases hm : toStr I m with
    | error e => simp [toStr_error hm, Except.bind, caught, Except.isOk, Except.toBool]
    | ok m =>
      cases hk : toInt k with
      | error e =>
        rcases toInt_error hk with ⟨hinf, rfl⟩ | ⟨hinf, rfl | rfl⟩ <;>
          simp [hinf, Except.bind, Except.map, caught, Except.isOk, Except.toBool]
      | ok n =>
        have hinf := not_isInfinite_of_toInt hk
        simp [hinf, Except.bind, Except.map, Except.isOk, Except.toBool]

theorem sharedTarget_isOk (v : Val PyFloat) : (sharedTarget I v).isOk = true ↔ IsRoute I v := by
  cases v with
  | obj es =>
    simp only [sharedTarget, IsRoute]
    split
    · rename_i p m k hp hm hk
      have h : (∀ e, (targetOf I p m k).map some = .error e → caught e = true) ↔ _ :=
        Iff.trans (by cases targetOf I p m k <;> simp [Except.map]) (targetOf_caught I p m k)
      rw [orElse_isOk, h]
      constructor
      · rintro hok p' m' k' hp' hm' hk'
        rw [hp, Option.some.injEq] at hp'
        rw [hm, Option.some.injEq] at hm'
        rw [hk, Option.some.injEq] at hk'
        exact hp' ▸ hm' ▸ hk' ▸ hok
      · exact fun hok => hok p m k hp hm hk
    · rename_i hmiss
      exact iff_of_true (isOk_ok _) fun p m k hp hm hk => (hmiss p m k hp hm hk).elim
  | _ => exact iff_of_true (isOk_ok _) trivial

theorem lookupRoute_isOk (store : Store) (clk : Clock) (L : Local) (key : String) :
    (lookupRoute I store clk L key).1.isOk = true ↔ Reads I (IsRoute I) (store key) := by
  have h := getJson_bind_isOk I (sharedTarget_isOk I) trivial (store key)
  rw [← h]
  unfold lookupRoute
  cases (getJson I (store key)).bind (sharedTarget I) with
  | error e => rfl
  | ok t => cases t <;> rfl

/-! ### What a reader returns -/

/-- The fetched text decodes to `v`. -/
def Decodes (f : Fetch) (v : Val PyFloat) : Prop := ∃ raw, f = .text raw ∧ JsonLoad.loads I.room raw = .ok v

variable {I}

theorem Reads.of_decodes {P : Val PyFloat → Prop} {f : Fetch} {v : Val PyFloat} (h : Reads I P f)
    (hv : Decodes I f v) : P v := by
  obtain ⟨raw, rfl, hload⟩ := hv
  simpa [Reads, hload] using h

theorem Reads.and {P Q : Val PyFloat → Prop} {f : Fetch} (h : Reads I P f) (hQ : ∀ v, Decodes I f v → Q v) :
    Reads I (fun v => P v ∧ Q v) f := by
  cases f with
  | text raw =>
    simp only [Reads] at h ⊢
    cases hload : JsonLoad.loads I.room raw with
    | ok v => exact ⟨by simpa [hload] using h, hQ v ⟨raw, rfl, hload⟩⟩
    | error e => simpa [hload] using h
  | _ => trivial

theorem Reads.mono {P Q : Val PyFloat → Prop} {f : Fetch} (h : Reads I P f) (hPQ : ∀ v, P v → Q v) :
    Reads I Q f := by
  cases f with
  | text raw =>
    simp only [Reads] at h ⊢
    cases hload : JsonLoad.loads I.room raw with
    | ok v => exact hPQ v (by simpa [hload] using h)
    | error e => simpa [hload] using h
  | _ => trivial

/-- A result that depends on a document other than `None` comes from one that was decoded. -/
theorem decodes_of_getJson_bind {α : Type} {f : Fetch}
    {body : Val PyFloat → Except PyError (Option α)} {a : α}
    (hnull : body .null = .ok none) (h : (getJson I f).bind body = .ok (some a)) :
    ∃ v, Decodes I f v ∧ body v = .ok (some a) := by
  have hmiss : body .null ≠ .ok (some a) := by simp [hnull]
  cases f with
  | text raw =>
    simp only [getJson, loads] at h
    cases hload : JsonLoad.loads I.room raw with
    | ok v =>
      rw [hload] at h
      exact ⟨v, ⟨raw, rfl, hload⟩, h⟩
    | error e =>
      rw [hload] at h
      cases e with
      | decode | fuel => exact absurd h hmiss
      | recursion => cases h
  | _ => exact absurd h hmiss

theorem getJson_bind_of_decodes {α : Type} {f : Fetch} {v : Val PyFloat} (hv : Decodes I f v)
    (body : Val PyFloat → Except PyError α) : (getJson I f).bind body = body v := by
  obtain ⟨raw, rfl, hload⟩ := hv
  simp only [getJson, loads, hload]
  rfl

theorem getAffinity_some {store : Store} {project : ℤ} {provider : String} {n : ℤ}
    (h : getAffinity I store project provider = .ok (some n)) :
    ∃ v, Decodes I (store (affKey project provider)) v ∧ toInt v = .ok n := by
  obtain ⟨v, hv, hpin⟩ := decodes_of_getJson_bind rfl h
  refine ⟨v, hv, ?_⟩
  cases v with
  | null => cases hpin
  | _ =>
    simp only [pinOf] at hpin
    cases hint : toInt _ with
    | error e => rw [hint] at hpin; cases hpin
    | ok m =>
      rw [hint] at hpin
      obtain rfl : m = n := by simpa [Except.map] using hpin
      rfl

theorem getAffinity_of_decodes {store : Store} {project : ℤ} {provider : String} {v : Val PyFloat} {n : ℤ}
    (hv : Decodes I (store (affKey project provider)) v) (hn : toInt v = .ok n) :
    getAffinity I store project provider = .ok (some n) := by
  rw [getAffinity, getJson_bind_of_decodes hv]
  cases v with
  | null => cases hn
  | _ => simp only [pinOf, hn, Except.map]

theorem toInts_ok {xs : List (Val PyFloat)} {ns : List ℤ} (h : toInts xs = .ok ns) :
    ∀ n ∈ ns, ∃ x ∈ xs, toInt x = .ok n := by
  induction xs generalizing ns with
  | nil =>
    obtain rfl : [] = ns := by simpa [toInts] using h
    simp
  | cons x xs ih =>
    simp only [toInts] at h
    cases hx : toInt x with
    | error e => rw [hx] at h; cases h
    | ok m =>
      rw [hx] at h
      cases hxs : toInts xs with
      | error e => rw [hxs] at h; cases h
      | ok ms =>
        rw [hxs] at h
        obtain rfl : m :: ms = ns := by simpa [Except.bind, Except.map] using h
        intro n hn
        rcases List.mem_cons.mp hn with rfl | hn
        · exact ⟨x, by simp, hx⟩
        · obtain ⟨y, hy, hyn⟩ := ih hxs n hn
          exact ⟨y, by simp [hy], hyn⟩

theorem toInts_of_isIntLike {xs : List (Val PyFloat)} (h : ∀ x ∈ xs, IsIntLike x = true) :
    ∃ ns, toInts xs = .ok ns ∧ ∀ x ∈ xs, ∀ n, toInt x = .ok n → n ∈ ns := by
  induction xs with
  | nil => exact ⟨[], rfl, by simp⟩
  | cons x xs ih =>
    obtain ⟨ns, hns, hmem⟩ := ih fun y hy => h y (List.mem_cons_of_mem _ hy)
    have hx : (toInt x).isOk = true := by rw [toInt_isOk]; exact h x (by simp)
    cases hint : toInt x with
    | error e => rw [hint] at hx; cases hx
    | ok m =>
      refine ⟨m :: ns, by simp [toInts, hint, hns, Except.bind, Except.map], ?_⟩
      intro y hy n hn
      rcases List.mem_cons.mp hy with rfl | hy
      · rw [hint] at hn
        obtain rfl : m = n := by simpa using hn
        simp
      · exact List.mem_cons_of_mem _ (hmem y hy n hn)

theorem getSaturated_some {store : Store} {ids : Finset ℤ} (h : getSaturated I store = .ok (some ids)) :
    ∃ v, Decodes I (store satKey) v ∧ idsOf v = .ok ids := by
  unfold getSaturated at h
  cases hf : store satKey with
  | text raw =>
    rw [hf] at h
    simp only [loads] at h
    cases hload : JsonLoad.loads I.room raw with
    | ok v =>
      rw [hload] at h
      refine ⟨v, ⟨raw, rfl, hload⟩, ?_⟩
      cases hids : idsOf v with
      | error e =>
        simp only [Except.mapError, Except.bind, Except.map, hids, orElse] at h
        split_ifs at h
        cases h
      | ok ids' => simpa [Except.mapError, Except.bind, Except.map, hids, orElse] using h
    | error e =>
      rw [hload] at h
      simp only [Except.mapError, Except.bind, orElse] at h
      split_ifs at h
      cases h
  | _ =>
    rw [hf] at h
    cases h

theorem getSaturated_of_decodes {store : Store} {v : Val PyFloat} {ids : Finset ℤ}
    (hv : Decodes I (store satKey) v) (hids : idsOf v = .ok ids) : getSaturated I store = .ok (some ids) := by
  obtain ⟨raw, hraw, hload⟩ := hv
  simp [getSaturated, hraw, loads, hload, Except.mapError, Except.bind, Except.map, hids, orElse]

theorem idsOf_ok {v : Val PyFloat} {ids : Finset ℤ} (h : idsOf v = .ok ids) :
    ∃ xs ns, iter v = .ok xs ∧ toInts xs = .ok ns ∧ ns.toFinset = ids := by
  unfold idsOf at h
  cases hiter : iter v with
  | error e => rw [hiter] at h; cases h
  | ok xs =>
    rw [hiter] at h
    cases hxs : toInts xs with
    | error e => simp [Except.bind, Except.map, hxs] at h
    | ok ns => exact ⟨xs, ns, rfl, hxs, by simpa [Except.bind, Except.map, hxs] using h⟩

theorem isIntLike_of_toInts {xs : List (Val PyFloat)} {ns : List ℤ} (h : toInts xs = .ok ns) :
    ∀ x ∈ xs, IsIntLike x = true := by
  induction xs generalizing ns with
  | nil => simp
  | cons x xs ih =>
    simp only [toInts] at h
    cases hx : toInt x with
    | error e => rw [hx] at h; cases h
    | ok m =>
      rw [hx] at h
      cases hxs : toInts xs with
      | error e => rw [hxs] at h; cases h
      | ok ms =>
        intro y hy
        rcases List.mem_cons.mp hy with rfl | hy
        · rw [← toInt_isOk, hx]
          rfl
        · exact ih hxs y hy

theorem sharedTarget_some {v : Val PyFloat} {t : AffinityTarget} (h : sharedTarget I v = .ok (some t)) :
    ∃ es p m k, v = .obj es ∧ OrderedDict.get es "p" = some p ∧ OrderedDict.get es "m" = some m ∧
      OrderedDict.get es "k" = some k ∧ toStr I p = .ok t.provider ∧ toStr I m = .ok t.model ∧
      toInt k = .ok t.keyId := by
  cases v with
  | obj es =>
    simp only [sharedTarget] at h
    split at h
    · rename_i p m k hp hm hk
      refine ⟨es, p, m, k, rfl, hp, hm, hk, ?_⟩
      show toStr I p = .ok t.provider ∧ toStr I m = .ok t.model ∧ toInt k = .ok t.keyId
      unfold targetOf at h
      cases hp' : toStr I p with
      | error e => simp [hp', Except.bind, Except.map, orElse, toStr_error hp', caught] at h
      | ok p' =>
        cases hm' : toStr I m with
        | error e => simp [hp', hm', Except.bind, Except.map, orElse, toStr_error hm', caught] at h
        | ok m' =>
          cases hk' : toInt k with
          | error e =>
            simp only [hp', hm', hk', Except.bind, Except.map, orElse] at h
            split_ifs at h
            cases h
          | ok n =>
            obtain rfl : AffinityTarget.mk p' m' n = t := by
              simpa [hp', hm', hk', Except.bind, Except.map, orElse] using h
            exact ⟨rfl, rfl, rfl⟩
    · cases h
  | _ => cases h

theorem lookupRoute_some {store : Store} {clk : Clock} {L : Local} {key : String} {t : AffinityTarget}
    (h : (lookupRoute I store clk L key).1 = .ok (some t)) :
    (∃ v, Decodes I (store key) v ∧ sharedTarget I v = .ok (some t)) ∨
      (fresh clk.ttl clk.now L.routes key).1 = some t := by
  unfold lookupRoute at h
  cases hr : (getJson I (store key)).bind (sharedTarget I) with
  | error e => rw [hr] at h; cases h
  | ok r =>
    rw [hr] at h
    cases r with
    | some t' =>
      obtain rfl : t' = t := by simpa using h
      exact .inl (decodes_of_getJson_bind rfl hr)
    | none => exact .inr (by simpa using h)

end Broker.Routing
