import NetPool.World

/-! # Outcomes of actions

The outcome of an action that is put together follows from the outcomes of its parts. -/

namespace NetPool

namespace Effect

variable {σ α β : Type}

/-- Nothing is to be told of a step but its outcomes. -/
theorem ext {a b : Effect σ α} (h : ∀ x, a.outcome x = b.outcome x) : a = b := funext h

@[simp] theorem outcome_pure (a : α) (x : σ) : (pure a : Effect σ α).outcome x = (.ok a, x) := rfl

@[simp] theorem outcome_of (f : σ → Except Error α × σ) (x : σ) : (of f).outcome x = f x := rfl

@[simp] theorem outcome_get (x : σ) : (MonadState.get : Effect σ σ).outcome x = (.ok x, x) := rfl

theorem outcome_bind (a : Effect σ α) (f : α → Effect σ β) (x : σ) :
    (a >>= f).outcome x =
      match a.outcome x with
      | (.ok v, x') => (f v).outcome x'
      | (.error e, x') => (.error e, x') := by
  simp only [outcome, ExceptT.run_bind, StateT.run_bind]
  rcases (ExceptT.run a).run x with ⟨r, x'⟩
  cases r with
  | ok v => rfl
  | error e => rfl

theorem outcome_tryCatch (a : Effect σ α) (f : Error → Effect σ α) (x : σ) :
    (tryCatch a f).outcome x =
      match a.outcome x with
      | (.ok v, x') => (.ok v, x')
      | (.error e, x') => (f e).outcome x' := by
  change (ExceptT.tryCatch a f : StateM σ _) x = _
  unfold ExceptT.tryCatch ExceptT.mk
  simp only [outcome, ExceptT.run, StateT.run]
  rcases h : a x with ⟨r, x'⟩
  simp only [bind, StateT.bind, h]
  cases r with
  | ok v => rfl
  | error e => rfl

theorem outcome_bind_ok {a : Effect σ α} {v : α} {x x' : σ} (h : a.outcome x = (.ok v, x'))
    (f : α → Effect σ β) : (a >>= f).outcome x = (f v).outcome x' := by
  rw [outcome_bind, h]

theorem outcome_bind_error {a : Effect σ α} {e : Error} {x x' : σ}
    (h : a.outcome x = (.error e, x')) (f : α → Effect σ β) :
    (a >>= f).outcome x = (.error e, x') := by
  rw [outcome_bind, h]

end Effect

namespace Action

open Effect

variable {α β : Type}

@[simp] theorem outcome_observe (f : World → Except Error α) (w : World) :
    (observe f).outcome w = (f w, w) := rfl

theorem outcome_onFiles (f : FileSystem → Except IoError FileSystem) (w : World) :
    (onFiles f).outcome w =
      match f w.files with
      | .ok files => (.ok (), w.withFiles files)
      | .error e => (.error (.io e), w) := rfl

@[simp] theorem outcome_changingFiles (f : FileSystem → Except IoError Unit × FileSystem)
    (w : World) :
    (changingFiles f).outcome w = ((f w.files).1.mapError .io, w.withFiles (f w.files).2) := rfl

@[simp] theorem mapError_ok {ε ε' : Type} (f : ε → ε') (a : α) :
    (Except.ok a).mapError f = .ok a := rfl

@[simp] theorem outcome_ask (question : Machine → Answer α) (w : World) :
    (ask question).outcome w =
      ((question w.machine).result, w.logged (question w.machine).calls) := rfl

/-! ## What actions do to the world -/

/-- However the action ends, the world after it is related to the world before it. -/
def Leads (R : World → World → Prop) (a : Action α) : Prop := ∀ w, R w (a.outcome w).2

/-- A relation that holds of steps taken one after the other if it holds of each. -/
structure Composes (R : World → World → Prop) : Prop where
  refl : ∀ w, R w w
  trans : ∀ {w w' w''}, R w w' → R w' w'' → R w w''

namespace Composes

variable {R : World → World → Prop} (hR : Composes R)

include hR

theorem pure (a : α) : Leads R (Pure.pure a : Action α) := hR.refl

theorem throw (e : Error) : Leads R (MonadExcept.throw e : Action α) := hR.refl

theorem observe (f : World → Except Error α) : Leads R (Action.observe f) := hR.refl

theorem get : Leads R (MonadState.get : Action World) := hR.refl

theorem bind {a : Action α} {f : α → Action β} (ha : Leads R a) (hf : ∀ x, Leads R (f x)) :
    Leads R (a >>= f) := by
  intro w
  have hfirst := ha w
  rw [outcome_bind]
  split
  · rename_i x w' heq
    rw [heq] at hfirst
    exact hR.trans hfirst (hf x w')
  · rename_i e w' heq
    rw [heq] at hfirst
    exact hfirst

theorem tryCatch {a : Action α} {f : Error → Action α} (ha : Leads R a) (hf : ∀ e, Leads R (f e)) :
    Leads R (MonadExcept.tryCatch a f) := by
  intro w
  have hfirst := ha w
  have hcatch := outcome_tryCatch a f w
  change R w (outcome (MonadExcept.tryCatch a f) w).2
  rw [show outcome (MonadExcept.tryCatch a f) w = _ from hcatch]
  split
  · rename_i x w' heq
    rw [heq] at hfirst
    exact hfirst
  · rename_i e w' heq
    rw [heq] at hfirst
    exact hR.trans hfirst (hf e w')

end Composes

end Action

namespace Session

/-! ## A small world -/

/-- A world in which nobody else acts: no lock is held, no program is installed, and the clock stands
still. -/
def quiet (files : FileSystem) : World where
  files := files
  guards := []
  nextGuard := 0
  clock _ := .epoch
  ticks := 0
  uptime := 0
  process := 1
  installed _ := none
  calls := []

end Session

end NetPool
