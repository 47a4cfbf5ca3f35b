import Formula.Proofs.Library.Install
/-!
Registrations do not look at the settings of an environment. What holds of the types, conversions
and operators of the standard library under some settings therefore holds under all.
-/

namespace Formula

namespace Registration

variable {α β : Type}

/-- A registration does the same under all settings, and leaves them as they are. -/
def Indifferent (m : Registration α) : Prop :=
  ∀ env config, m.run { env with config } = ((m.run env).1, { (m.run env).2 with config })

/-- The settings that a registration starts with are there afterwards, and nothing else depends on
them. -/
theorem Indifferent.run_of_settings {m : Registration α} (hm : Indifferent m) (config : Config) :
    (m.run { config }).2 = { (m.run {}).2 with config } :=
  congrArg Prod.snd (hm {} config)

theorem Indifferent.result_of_settings {m : Registration α} (hm : Indifferent m)
    (config : Config) : (m.run { config }).1 = (m.run {}).1 := by
  have hrun := congrArg Prod.fst (hm {} config)
  exact hrun

theorem indifferent_pure (x : α) : Indifferent (pure x : Registration α) :=
  fun _ _ => rfl

theorem indifferent_throw (e : Error) : Indifferent (throw e : Registration α) :=
  fun _ _ => rfl

theorem indifferent_lift (x : Except Error α) : Indifferent (liftM x : Registration α) := by
  intro env config
  cases x <;> rfl

theorem indifferent_bind {m : Registration α} {f : α → Registration β} (hm : Indifferent m)
    (hf : ∀ x, Indifferent (f x)) : Indifferent (m >>= f) := by
  intro env config
  rw [run_bind, run_bind, hm env config]
  rcases m.run env with ⟨e | x, env'⟩
  · rfl
  · exact hf x env' config

/-- A registration may look at the environment, if the settings make no difference to what it does
then. -/
theorem indifferent_get_bind {f : Environment → Registration α}
    (hf : ∀ env, Indifferent (f env)) (hconfig : ∀ env config, f { env with config } = f env) :
    Indifferent (get >>= f) := by
  intro env config
  rw [run_bind, run_bind]
  show (f { env with config }).run { env with config } = _
  rw [hconfig]
  exact hf env env config

theorem indifferent_discard {m : Registration α} (hm : Indifferent m) : Indifferent (discard m) :=
  indifferent_bind hm fun _ => indifferent_pure _

theorem indifferent_forM {f : α → Registration Unit} (hf : ∀ x, Indifferent (f x)) (xs : List α) :
    Indifferent (xs.forM f) := by
  induction xs with
  | nil => exact indifferent_pure _
  | cons x xs ih => exact indifferent_bind (hf x) fun _ => ih

theorem indifferent_mapM {f : α → Registration β} (hf : ∀ x, Indifferent (f x)) (xs : List α) :
    Indifferent (xs.mapM f) := by
  induction xs with
  | nil => exact indifferent_pure _
  | cons x xs ih =>
    rw [List.mapM_cons]
    exact indifferent_bind (hf x) fun _ => indifferent_bind ih fun _ => indifferent_pure _

theorem indifferent_tryCatch {m : Registration α} {handler : Error → Registration α}
    (hm : Indifferent m) (hh : ∀ e, Indifferent (handler e)) :
    Indifferent (tryCatch m handler) := by
  intro env config
  rw [run_tryCatch, run_tryCatch, hm env config]
  rcases m.run env with ⟨e | x, env'⟩
  · exact hh e env' config
  · rfl

theorem indifferent_step {f : Environment → Except Error (α × Environment)}
    (hf : ∀ env config,
      f { env with config } = (f env).map fun r => (r.1, { r.2 with config })) :
    Indifferent (step f) := by
  intro env config
  rw [run_step, run_step, hf]
  rcases f env with _ | ⟨_, _⟩ <;> rfl

/-! ### Single registrations -/

theorem indifferent_buildConcreteType (p : ConcreteType.Parts) :
    Indifferent (buildConcreteType p) := by
  refine indifferent_step fun env config => ?_
  cases p.build env.nextStamp <;> rfl

theorem indifferent_registerConcreteType (c : ConcreteType) :
    Indifferent (registerConcreteType c) := by
  refine indifferent_step fun env config => ?_
  cases env.types.registerConcrete c <;> rfl

theorem indifferent_defineMathType (name : String) (representations : List (Mode × String)) :
    Indifferent (defineMathType name representations) := by
  refine indifferent_step fun env config => ?_
  cases env.types.defineMath name representations <;> rfl

theorem indifferent_defineMathCast (source target : String) :
    Indifferent (defineMathCast source target) := by
  refine indifferent_bind (indifferent_step fun env config => ?_) fun c =>
    indifferent_step fun env config => ?_
  · cases env.types.mathType source
    · rfl
    · cases env.types.mathType target <;> rfl
  · cases env.casts.registerMath c <;> rfl

theorem indifferent_defineConcreteCast (s : Evaluator.Spec) :
    Indifferent (defineConcreteCast s) := by
  refine indifferent_get_bind (fun env => ?_) fun env config => rfl
  refine indifferent_bind (indifferent_lift _) fun e => indifferent_step fun env config => ?_
  cases ConcreteCast.ofEvaluator e with
  | error _ => rfl
  | ok c =>
    simp only [Except.ok_bind]
    cases env.casts.registerConcrete c <;> rfl

theorem indifferent_defineOverload (s : Overload.Spec) : Indifferent (defineOverload s) := by
  refine indifferent_get_bind (fun env => ?_) fun env config => rfl
  exact indifferent_bind (indifferent_lift _) fun o => indifferent_step fun env config => rfl

end Registration

/-! ### The standard library -/

namespace Library

open Registration

theorem indifferent_within {task : String} {r : Registration Unit} (h : r.Indifferent) :
    (within task r).Indifferent :=
  indifferent_tryCatch h fun _ => indifferent_throw _

theorem indifferent_installOverloads (specs : List Overload.Spec) :
    (installOverloads specs).Indifferent :=
  indifferent_forM (fun s => indifferent_discard (indifferent_defineOverload s)) specs

theorem indifferent_install : install.Indifferent := by
  refine indifferent_bind (indifferent_within ?_) fun _ =>
    indifferent_bind (indifferent_within ?_) fun _ =>
    indifferent_bind (indifferent_within (indifferent_installOverloads _)) fun _ =>
    indifferent_bind (indifferent_within (indifferent_installOverloads _)) fun _ =>
    indifferent_within (indifferent_installOverloads _)
  · refine indifferent_bind (indifferent_mapM indifferent_buildConcreteType _) fun built => ?_
    refine indifferent_bind (indifferent_forM (fun c => ?_) built) fun _ =>
      indifferent_forM (fun t => ?_) mathTypes
    · exact indifferent_discard (indifferent_registerConcreteType c)
    · exact indifferent_discard (indifferent_defineMathType t.1 t.2)
  · refine indifferent_bind (indifferent_forM (fun c => ?_) mathCasts) fun _ =>
      indifferent_forM (fun s => ?_) concreteCasts
    · exact indifferent_discard (indifferent_defineMathCast c.1 c.2)
    · exact indifferent_discard (indifferent_defineConcreteCast s)

end Library

namespace Environment

/-- The standard environment is the same under all settings, but for these. -/
theorem standard_eq (config : Config) : standard config = { standard {} with config } := by
  unfold standard
  rw [Library.indifferent_install.run_of_settings config]

section Fields

variable {env env' : Environment} {config : Config} (h : env' = { env with config })

include h

theorem config_of_eq : env'.config = config := by
  rw [h]

theorem types_of_eq : env'.types = env.types := by
  rw [h]

theorem casts_of_eq : env'.casts = env.casts := by
  rw [h]

theorem operators_of_eq : env'.operators = env.operators := by
  rw [h]

end Fields

theorem config_standard (config : Config) : (standard config).config = config :=
  config_of_eq (standard_eq config)

theorem types_standard (config : Config) : (standard config).types = (standard {}).types :=
  types_of_eq (standard_eq config)

theorem casts_standard (config : Config) : (standard config).casts = (standard {}).casts :=
  casts_of_eq (standard_eq config)

theorem operators_standard (config : Config) :
    (standard config).operators = (standard {}).operators :=
  operators_of_eq (standard_eq config)

end Environment

end Formula
