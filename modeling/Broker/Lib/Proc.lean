import Mathlib.Data.List.Basic
import Mathlib.Tactic.Common

/-!
# Broker.Lib.Proc — procedures that can be struck at their awaits

A procedure is run against fates fixed in advance: for every await, whether it returns, raises, or is
cancelled, and whether its effect took place before it raised.  What is left is the log of its effects
and how it ended.
-/

namespace Broker.Lib

/-- How a procedure leaves: an exception of the program, or the cancellation of its task. -/
inductive Raised (ε : Type) where
  | exc (e : ε)
  | cancelled

/-- One run: the effects it had, in order, and its end. -/
structure Proc (ω ε α : Type) where
  log : List ω
  out : Except (Raised ε) α

/-- The fate of an await; `committed` says that the effect took place although the await raised. -/
inductive Fate (ε : Type) where
  | ok
  | failed (e : ε) (committed : Bool)
  | cancelled (committed : Bool)

def Fate.map {ε δ : Type} (g : ε → δ) : Fate ε → Fate δ
  | .ok => .ok
  | .failed e committed => .failed (g e) committed
  | .cancelled committed => .cancelled committed

/-- The await returned. -/
def Fate.isOk {ε : Type} : Fate ε → Bool
  | .ok => true
  | _ => false

/-- The await raised although its effect took place. -/
def Fate.lostAck {ε : Type} : Fate ε → Bool
  | .failed _ true | .cancelled true => true
  | _ => false

/-- The fate of an await on something that does not fail by itself. -/
inductive Interrupt where
  | none
  | cancelled (committed : Bool)
  deriving DecidableEq

namespace Proc

variable {ω ε α β : Type}

instance : Monad (Proc ω ε) where
  pure a := ⟨[], .ok a⟩
  bind p f := match p.out with
    | .ok a => ⟨p.log ++ (f a).log, (f a).out⟩
    | .error e => ⟨p.log, .error e⟩

def raise (e : Raised ε) : Proc ω ε α := ⟨[], .error e⟩

/-- `try p except BaseException as e: h e`. -/
def handle (p : Proc ω ε α) (h : Raised ε → Proc ω ε α) : Proc ω ε α :=
  match p.out with
  | .ok _ => p
  | .error e => ⟨p.log ++ (h e).log, (h e).out⟩

/-- Await the effects `ws`. -/
def await (fate : Fate ε) (ws : List ω) : Proc ω ε Unit :=
  match fate with
  | .ok => ⟨ws, .ok ()⟩
  | .failed e committed => ⟨if committed then ws else [], .error (.exc e)⟩
  | .cancelled committed => ⟨if committed then ws else [], .error .cancelled⟩

/-- Await effects that do not fail by themselves. -/
def awaitSafe (i : Interrupt) (ws : List ω) : Proc ω ε Unit :=
  match i with
  | .none => ⟨ws, .ok ()⟩
  | .cancelled committed => ⟨if committed then ws else [], .error .cancelled⟩

/-- Await a task of its own: it runs to completion even when the await is cancelled. -/
def shield (cancelled : Bool) (ws : List ω) : Proc ω ε Unit :=
  ⟨ws, if cancelled then .error .cancelled else .ok ()⟩

@[simp] theorem log_pure (a : α) : (pure a : Proc ω ε α).log = [] := rfl

@[simp] theorem out_pure (a : α) : (pure a : Proc ω ε α).out = .ok a := rfl

@[simp] theorem log_raise (e : Raised ε) : (raise e : Proc ω ε α).log = [] := rfl

@[simp] theorem out_raise (e : Raised ε) : (raise e : Proc ω ε α).out = .error e := rfl

theorem bind_of_ok {p : Proc ω ε α} {a : α} (h : p.out = .ok a) (f : α → Proc ω ε β) :
    p >>= f = ⟨p.log ++ (f a).log, (f a).out⟩ := by
  change (match p.out with | .ok a => _ | .error e => _) = _
  rw [h]

theorem bind_of_error {p : Proc ω ε α} {e : Raised ε} (h : p.out = .error e) (f : α → Proc ω ε β) :
    p >>= f = ⟨p.log, .error e⟩ := by
  change (match p.out with | .ok a => _ | .error e => _) = _
  rw [h]

theorem handle_of_ok {p : Proc ω ε α} {a : α} (h : p.out = .ok a) (k : Raised ε → Proc ω ε α) :
    p.handle k = p := by
  unfold handle
  rw [h]

theorem handle_of_error {p : Proc ω ε α} {e : Raised ε} (h : p.out = .error e) (k : Raised ε → Proc ω ε α) :
    p.handle k = ⟨p.log ++ (k e).log, (k e).out⟩ := by
  unfold handle
  rw [h]

/-- A sequence returns when both parts do. -/
theorem bind_returns {p : Proc ω ε α} {f : α → Proc ω ε β} {b : β} :
    (p >>= f).out = .ok b ↔ ∃ a, p.out = .ok a ∧ (f a).out = .ok b := by
  cases ho : p.out with
  | ok a =>
    rw [bind_of_ok ho]
    simp
  | error e =>
    rw [bind_of_error ho]
    simp

/-- A guarded procedure returns when it does or its handler does. -/
theorem handle_returns {p : Proc ω ε α} {k : Raised ε → Proc ω ε α} {a : α} (h : (p.handle k).out = .ok a) :
    p.out = .ok a ∨ ∃ e, p.out = .error e ∧ (k e).out = .ok a := by
  cases ho : p.out with
  | ok b =>
    rw [handle_of_ok ho, ho] at h
    exact .inl h
  | error e =>
    rw [handle_of_error ho] at h
    exact .inr ⟨e, rfl, h⟩

/-! ### What a procedure can emit -/

/-- Every effect of the procedure satisfies `P`. -/
def Emits (P : ω → Prop) (p : Proc ω ε α) : Prop := ∀ x ∈ p.log, P x

variable {P : ω → Prop}

theorem emits_pure (a : α) : Emits P (pure a : Proc ω ε α) := by simp [Emits]

theorem emits_raise (e : Raised ε) : Emits P (raise e : Proc ω ε α) := by simp [Emits]

theorem Emits.bind {p : Proc ω ε α} {f : α → Proc ω ε β} (hp : Emits P p) (hf : ∀ a, Emits P (f a)) :
    Emits P (p >>= f) := by
  unfold Emits
  cases ho : p.out with
  | error e =>
    rw [bind_of_error ho]
    exact hp
  | ok a =>
    rw [bind_of_ok ho]
    intro x hx
    exact (List.mem_append.mp hx).elim (hp x) (hf a x)

theorem Emits.handle {p : Proc ω ε α} {k : Raised ε → Proc ω ε α} (hp : Emits P p) (hk : ∀ e, Emits P (k e)) :
    Emits P (p.handle k) := by
  unfold Emits
  cases ho : p.out with
  | ok a =>
    rw [handle_of_ok ho]
    exact hp
  | error e =>
    rw [handle_of_error ho]
    intro x hx
    exact (List.mem_append.mp hx).elim (hp x) (hk e x)

theorem emits_await {ws : List ω} (h : ∀ x ∈ ws, P x) (fate : Fate ε) : Emits P (await fate ws) := by
  cases fate with
  | ok => exact h
  | failed e committed | cancelled committed =>
    cases committed with
    | true => exact h
    | false => exact List.forall_mem_nil P

theorem emits_awaitSafe {ws : List ω} (h : ∀ x ∈ ws, P x) (i : Interrupt) :
    Emits P (awaitSafe i ws : Proc ω ε Unit) := by
  cases i with
  | none => exact h
  | cancelled committed =>
    cases committed with
    | true => exact h
    | false => exact List.forall_mem_nil P

theorem emits_shield {ws : List ω} (h : ∀ x ∈ ws, P x) (cancelled : Bool) :
    Emits P (shield cancelled ws : Proc ω ε Unit) := h

end Proc

end Broker.Lib
