import Formula.Environment
import Formula.Proofs.Except
/-!
What registrations keep: a property of environments that every step of a sequence keeps, whether it
fails or not, is kept by the sequence.
-/

namespace Formula.Registration

variable {α β : Type} {P : Environment → Prop} {Q : α → Prop} {R : β → Prop}

/-- A registration keeps `P`, whether it fails or not, and gives only results with `Q`. -/
def Keeps (P : Environment → Prop) (Q : α → Prop) (m : Registration α) : Prop :=
  ∀ env, P env → P (m.run env).2 ∧ ∀ x, (m.run env).1 = .ok x → Q x

theorem keeps_pure {x : α} (hx : Q x) : Keeps P Q (pure x : Registration α) :=
  fun _ henv => ⟨henv, fun _ h => Except.ok.inj h ▸ hx⟩

theorem keeps_throw {e : Error} : Keeps P Q (throw e : Registration α) :=
  fun _ henv => ⟨henv, fun _ h => nomatch h⟩

theorem run_bind (m : Registration α) (f : α → Registration β) (env : Environment) :
    (m >>= f).run env = match m.run env with
      | (.ok x, env) => (f x).run env
      | (.error e, env) => (.error e, env) := by
  show (m >>= f) env = _
  simp only [bind, ExceptT.bind, ExceptT.mk, StateT.bind, ExceptT.run]
  rcases m env with ⟨_ | _, _⟩ <;> rfl

theorem keeps_bind {m : Registration α} {f : α → Registration β} (hm : Keeps P Q m)
    (hf : ∀ x, Q x → Keeps P R (f x)) : Keeps P R (m >>= f) := by
  intro env henv
  rw [run_bind]
  have h := hm env henv
  rcases hr : m.run env with ⟨e | x, env'⟩
  · rw [hr] at h
    exact ⟨h.1, fun _ h => nomatch h⟩
  · rw [hr] at h
    exact hf x (h.2 x rfl) env' h.1

theorem run_step (f : Environment → Except Error (α × Environment)) (env : Environment) :
    (step f).run env = match f env with
      | .ok (x, env') => (.ok x, env')
      | .error e => (.error e, env) := by
  show (get >>= fun env => _ : Registration α) env = _
  simp only [bind, ExceptT.bind, ExceptT.mk, StateT.bind]
  show (match f env with
    | .ok (x, env) => (do set env; pure x : Registration α)
    | .error e => (throw e : Registration α)) env = _
  rcases f env with _ | ⟨_, _⟩ <;> rfl

theorem keeps_step {f : Environment → Except Error (α × Environment)}
    (hf : ∀ env x env', P env → f env = .ok (x, env') → P env' ∧ Q x) : Keeps P Q (step f) := by
  intro env henv
  rw [run_step]
  cases hfe : f env with
  | error e => exact ⟨henv, fun _ h => nomatch h⟩
  | ok p =>
    obtain ⟨hp, hq⟩ := hf env p.1 p.2 henv hfe
    exact ⟨hp, fun _ h => Except.ok.inj h ▸ hq⟩

theorem keeps_discard {m : Registration α} (hm : Keeps P (fun _ => True) m) :
    Keeps P (fun _ => True) (discard m) :=
  keeps_bind hm fun _ _ => keeps_pure trivial

theorem keeps_get : Keeps P P (get : Registration Environment) :=
  fun _ henv => ⟨henv, fun _ h => Except.ok.inj h ▸ henv⟩

theorem keeps_lift {x : Except Error α} (hx : ∀ y, x = .ok y → Q y) :
    Keeps P Q (liftM x : Registration α) := by
  intro env henv
  cases x with
  | error e => exact ⟨henv, fun _ h => nomatch h⟩
  | ok y => exact ⟨henv, fun _ h => Except.ok.inj h ▸ hx y rfl⟩

theorem keeps_forM {f : α → Registration Unit} {xs : List α}
    (hf : ∀ x ∈ xs, Keeps P (fun _ => True) (f x)) : Keeps P (fun _ => True) (xs.forM f) := by
  induction xs with
  | nil => exact keeps_pure trivial
  | cons x xs ih =>
    rw [List.forall_mem_cons] at hf
    exact keeps_bind hf.1 fun _ _ => ih hf.2

theorem keeps_mapM {f : α → Registration β} {xs : List α} (hf : ∀ x ∈ xs, Keeps P R (f x)) :
    Keeps P (fun ys => ∀ y ∈ ys, R y) (xs.mapM f) := by
  induction xs with
  | nil => exact keeps_pure (by simp)
  | cons x xs ih =>
    rw [List.forall_mem_cons] at hf
    rw [List.mapM_cons]
    exact keeps_bind hf.1 fun y hy => keeps_bind (ih hf.2) fun ys hys =>
      keeps_pure (List.forall_mem_cons.2 ⟨hy, hys⟩)

theorem run_tryCatch (m : Registration α) (handler : Error → Registration α) (env : Environment) :
    (tryCatch m handler).run env = match m.run env with
      | (.ok x, env) => (.ok x, env)
      | (.error e, env) => (handler e).run env := by
  show (ExceptT.tryCatch m handler) env = _
  simp only [ExceptT.tryCatch, ExceptT.mk, bind, StateT.bind, ExceptT.run]
  rcases m env with ⟨_ | _, _⟩ <;> rfl

theorem keeps_tryCatch {m : Registration α} {handler : Error → Registration α}
    (hm : Keeps P Q m) (hh : ∀ e, Keeps P Q (handler e)) : Keeps P Q (tryCatch m handler) := by
  intro env henv
  rw [run_tryCatch]
  have h := hm env henv
  rcases hr : m.run env with ⟨e | x, env'⟩
  · rw [hr] at h
    exact hh e env' h.1
  · rw [hr] at h
    exact ⟨h.1, fun _ hx => Except.ok.inj hx ▸ h.2 x rfl⟩

/-! ### Single registrations -/

section Single

variable {c : ConcreteType} {o : Overload}

theorem keeps_buildConcreteType {p : ConcreteType.Parts} {Q : ConcreteType → Prop}
    (h : ∀ env c, P env → p.build env.nextStamp = .ok c →
      P { env with nextStamp := env.nextStamp + 1 } ∧ Q c) :
    (buildConcreteType p).Keeps P Q := by
  refine keeps_step fun env c env' henv hstep => ?_
  simp only [Except.bind_eq_ok, Except.pure_eq_ok, Prod.mk.injEq] at hstep
  obtain ⟨c, hc, rfl, rfl⟩ := hstep
  exact h env c henv hc

theorem keeps_registerConcreteType
    (h : ∀ env d types, P env → env.types.registerConcrete c = .ok (d, types) →
      P { env with types }) : (registerConcreteType c).Keeps P fun _ => True := by
  refine keeps_step fun env d env' henv hstep => ⟨?_, trivial⟩
  simp only [Except.bind_eq_ok, Except.pure_eq_ok, Prod.mk.injEq] at hstep
  obtain ⟨⟨d, types⟩, htypes, -, rfl⟩ := hstep
  exact h env d types henv htypes

theorem keeps_defineMathType {name : String} {representations : List (Mode × String)}
    (h : ∀ env u types, P env → env.types.defineMath name representations = .ok (u, types) →
      P { env with types }) : (defineMathType name representations).Keeps P fun _ => True := by
  refine keeps_step fun env u env' henv hstep => ⟨?_, trivial⟩
  simp only [Except.bind_eq_ok, Except.pure_eq_ok, Prod.mk.injEq] at hstep
  obtain ⟨⟨u, types⟩, htypes, -, rfl⟩ := hstep
  exact h env u types henv htypes

theorem keeps_registerMathCast {c : MathCast}
    (h : ∀ env casts, P env → env.casts.registerMath c = .ok casts → P { env with casts }) :
    (registerMathCast c).Keeps P fun _ => True := by
  refine keeps_step fun env c' env' henv hstep => ⟨?_, trivial⟩
  simp only [Except.bind_eq_ok, Except.pure_eq_ok, Prod.mk.injEq] at hstep
  obtain ⟨casts, hcasts, -, rfl⟩ := hstep
  exact h env casts henv hcasts

theorem keeps_defineMathCast {source target : String}
    (h : ∀ c, (registerMathCast c).Keeps P fun _ => True) :
    (defineMathCast source target).Keeps P fun _ => True := by
  have hbetween : (mathCastBetween source target).Keeps P fun _ => True := by
    refine keeps_step fun env c env' henv hstep => ⟨?_, trivial⟩
    simp only [Except.bind_eq_ok, Except.pure_eq_ok, Prod.mk.injEq] at hstep
    obtain ⟨-, -, -, -, -, rfl⟩ := hstep
    exact henv
  exact keeps_bind hbetween fun c _ => h c

theorem keeps_registerConcreteCast {e : Evaluator}
    (h : ∀ env c casts, P env → ConcreteCast.ofEvaluator e = .ok c →
      env.casts.registerConcrete c = .ok casts → P { env with casts }) :
    (registerConcreteCast e).Keeps P fun _ => True := by
  refine keeps_step fun env c env' henv hstep => ⟨?_, trivial⟩
  simp only [Except.bind_eq_ok, Except.pure_eq_ok, Prod.mk.injEq] at hstep
  obtain ⟨c, hc, casts, hcasts, -, rfl⟩ := hstep
  exact h env c casts henv hc hcasts

theorem keeps_defineConcreteCast {s : Evaluator.Spec}
    (h : ∀ env e, P env → s.build env.types = .ok e →
      (registerConcreteCast e).Keeps P fun _ => True) :
    (defineConcreteCast s).Keeps P fun _ => True :=
  keeps_bind keeps_get fun env henv =>
    keeps_bind (keeps_lift fun e (he : s.build env.types = .ok e) => he) fun e he => h env e henv he

theorem keeps_registerOverload
    (h : ∀ env, P env → P { env with operators := (env.operators.register o).2 }) :
    (registerOverload o).Keeps P fun _ => True := by
  refine keeps_step fun env o' env' henv hstep => ⟨?_, trivial⟩
  cases hstep
  exact h env henv

theorem keeps_defineOverload {s : Overload.Spec}
    (h : ∀ env o, P env → s.build env.types = .ok o →
      (registerOverload o).Keeps P fun _ => True) : (defineOverload s).Keeps P fun _ => True :=
  keeps_bind keeps_get fun env henv =>
    keeps_bind (keeps_lift fun o (ho : s.build env.types = .ok o) => ho) fun o ho => h env o henv ho

end Single

end Formula.Registration
