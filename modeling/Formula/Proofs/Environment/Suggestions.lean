import Formula.Proofs.Environment.History
import Formula.Proofs.Text.Suggestions
/-!
Hints about unknown names. Whatever has been registered and in whatever order, a name that is not
registered leads to an error whose hint is that for the set of the names that are. So histories in
which the same names have been registered give the same hints.
-/

namespace Formula

namespace Directory

variable {α : Type} {d : Directory α} {name : String}

theorem mem_names : name ∈ d.names ↔ (d.get? name).isSome := by
  rw [Option.isSome_iff_exists]
  constructor
  · intro h
    obtain ⟨e, he, rfl⟩ := List.mem_map.1 h
    exact ⟨e.2, get?_of_mem_entries he⟩
  · rintro ⟨x, hx⟩
    exact List.mem_map_of_mem (f := Prod.fst) (mem_entries_of_get? hx)

theorem sorted_names (d : Directory α) : d.names.Pairwise (· < ·) :=
  List.pairwise_map.2 d.sorted

end Directory

/-- What a name may stand for. -/
inductive NameKind where
  | mathType
  | concreteType
  | operator

/-- The names of a kind under which something has been given back. -/
def registered (log : List Entry) : NameKind → List String
  | .mathType => (log.filterMap Entry.mathType?).map (·.name)
  | .concreteType => (log.filterMap Entry.concreteType?).map (·.name)
  | .operator => (log.filterMap Entry.overload?).map (·.name)

namespace Environment

/-- The name is refused as unknown, with a hint. -/
def Refuses (env : Environment) (name : String) (hint : Option String) : NameKind → Prop
  | .mathType => env.types.mathType name = .error (.unknownType name hint)
  | .concreteType => env.types.concreteType name = .error (.unknownType name hint)
  | .operator => ∀ casts arguments,
      env.operators.resolve casts name arguments = .error (.unknownOperator name hint)

/-- The names of a kind that an environment has. -/
def names (env : Environment) : NameKind → List String
  | .mathType => env.types.mathematical.names
  | .concreteType => env.types.concrete.names
  | .operator => env.operators.names

section Names

variable {env env' : Environment} {e : Entry} {log : List Entry} {kind : NameKind} {name : String}

theorem sorted_names (env : Environment) (kind : NameKind) : (env.names kind).Pairwise (· < ·) := by
  cases kind with
  | mathType => exact Directory.sorted_names _
  | concreteType => exact Directory.sorted_names _
  | operator => exact Directory.sorted_names _

theorem refuses (h : name ∉ env.names kind) :
    env.Refuses name (Text.suggestion? name (env.names kind)) kind := by
  cases kind with
  | mathType =>
    have hnone := Option.not_isSome_iff_eq_none.1 (mt Directory.mem_names.2 h)
    simp only [Refuses, TypeRegistry.mathType, hnone, names]
  | concreteType =>
    have hnone := Option.not_isSome_iff_eq_none.1 (mt Directory.mem_names.2 h)
    simp only [Refuses, TypeRegistry.concreteType, hnone, names]
  | operator =>
    have hnone := Option.not_isSome_iff_eq_none.1 (mt Directory.mem_names.2 h)
    intro casts arguments
    simp only [OperatorRegistry.resolve, OperatorRegistry.candidates, hnone, Option.getD_none,
      names]

/-- No operator is without overloads. -/
def Staffed (env : Environment) : Prop :=
  ∀ name, env.operators.overloads.get? name ≠ some []

theorem Enters.staffed (h : env.Enters e env') (staffed : env.Staffed) : env'.Staffed := by
  cases h with
  | @overload o formed =>
    intro name hname
    rcases Directory.get?_insert_eq_some hname with ⟨-, hnil⟩ | hname
    · simp at hnil
    · exact staffed name hname
  | built | knownConcreteType | concreteType | knownMathType | mathType | mathCast
  | concreteCast => exact staffed

theorem Reachable.staffed (h : env.Reachable) : env.Staffed :=
  h.entered (fun _ _ h => nomatch h) Enters.staffed

/-- What has been given back tells which names there are. -/
theorem Follows.mem_names (h : env.Follows log) (staffed : env.Staffed) :
    name ∈ env.names kind ↔ name ∈ registered log kind := by
  cases kind with
  | mathType =>
    rw [names, Directory.mem_names, h.mathematical, List.find?_isSome]
    simp [registered]
  | concreteType =>
    rw [names, Directory.mem_names, h.concrete, List.find?_isSome]
    simp [registered]
  | operator =>
    have hcandidates : name ∈ env.operators.names ↔ env.operators.candidates name ≠ [] := by
      rw [OperatorRegistry.names, Directory.mem_names, OperatorRegistry.candidates]
      cases hos : env.operators.overloads.get? name with
      | none => simp
      | some os =>
        have hne : os ≠ [] := fun hnil => staffed name (hnil ▸ hos)
        simp [hne]
    rw [names, hcandidates, h.overloads]
    simp only [registered, List.mem_map, ne_eq, List.filter_eq_nil_iff, decide_eq_true_eq,
      not_forall, not_not, exists_prop]

theorem hint_of_follows (h : env.Follows log) (staffed : env.Staffed)
    (hname : name ∉ registered log kind) :
    ∃ hint, env.Refuses name hint kind ∧ Text.Hint name (· ∈ registered log kind) hint := by
  have hunknown : name ∉ env.names kind := mt (h.mem_names staffed).1 hname
  refine ⟨_, refuses hunknown, ?_⟩
  have hsame : (· ∈ registered log kind) = (· ∈ env.names kind) :=
    funext fun _ => propext (h.mem_names staffed).symm
  rw [hsame]
  exact Text.hint_suggestion? (env.sorted_names kind) hunknown

end Names

/-- The search for the nearest name finds just the first of the nearest, if that is near enough. And
a name that is not registered is refused with the hint for the set of the names that are, which is
the hint after any history in which the same names have been registered. -/
theorem hints_canonical :
    (∀ name candidates bound c, Text.nearest? name candidates bound = some c ↔
      (∃ i, Text.Foremost name candidates i c) ∧ Text.distance name c < bound) ∧
    ∀ config rs kind name, name ∉ registered (entries { config } rs) kind →
      ∃ hint, (afterAll { config } rs).Refuses name hint kind ∧
        Text.Hint name (· ∈ registered (entries { config } rs) kind) hint ∧
        ∀ config' rs', (∀ n, n ∈ registered (entries { config := config' } rs') kind ↔
            n ∈ registered (entries { config } rs) kind) →
          (afterAll { config := config' } rs').Refuses name hint kind := by
  refine ⟨fun _ _ _ _ => Text.nearest?_eq_some, fun config rs kind name hname => ?_⟩
  have hint_of_history : ∀ config rs, name ∉ registered (entries { config } rs) kind →
      ∃ hint, (afterAll { config } rs).Refuses name hint kind ∧
        Text.Hint name (· ∈ registered (entries { config } rs) kind) hint := by
    intro config rs
    have hfollows := (follows_empty config).afterAll rs
    exact hint_of_follows hfollows (reachable_afterAll (.empty config) rs).staffed
  obtain ⟨hint, hrefuses, hhint⟩ := hint_of_history config rs hname
  refine ⟨hint, hrefuses, hhint, fun config' rs' hsame => ?_⟩
  obtain ⟨hint', hrefuses', hhint'⟩ := hint_of_history config' rs' (mt (hsame name).1 hname)
  simp only [hsame] at hhint'
  exact hhint.unique hhint' ▸ hrefuses'

end Environment

namespace Sums

/-- In whatever order the two types are registered, the name `reel` is taken for one of them. -/
theorem hint_reel :
    "reel" ∉ registered (Environment.entries {} [.concreteType real, .concreteType complex])
      .concreteType ∧
    (Environment.afterAll {} [.concreteType real, .concreteType complex]).types.concreteType
      "reel" = .error (.unknownType "reel" (some "did you mean `real`?")) ∧
    (Environment.afterAll {} [.concreteType complex, .concreteType real]).types.concreteType
      "reel" = .error (.unknownType "reel" (some "did you mean `real`?")) := by
  have hnames : registered (Environment.entries {} [.concreteType real, .concreteType complex])
      .concreteType = ["real", "complex"] := by decide +kernel
  have hnames' : registered (Environment.entries {} [.concreteType complex, .concreteType real])
      .concreteType = ["complex", "real"] := by decide +kernel
  have hunknown : "reel" ∉ registered
      (Environment.entries {} [.concreteType real, .concreteType complex]) .concreteType := by
    rw [hnames]
    decide
  obtain ⟨hint, hrefuses, hhint, hothers⟩ :=
    Environment.hints_canonical.2 {} [.concreteType real, .concreteType complex] .concreteType
      "reel" hunknown
  rw [hnames] at hhint
  have hleast : ∀ d ∈ ["real", "complex"], Text.distance "reel" d = 1 →
      Text.bytes "real" ≤ Text.bytes d := by decide +kernel
  have hnear := Text.Hint.near (by decide : "real" ∈ ["real", "complex"])
    (by decide +kernel : Text.distance "reel" "real" = 1) hleast
  obtain rfl := hhint.unique hnear
  refine ⟨hunknown, hrefuses, hothers {} [.concreteType complex, .concreteType real] fun n => ?_⟩
  rw [hnames, hnames']
  simp only [List.mem_cons, List.not_mem_nil, or_false]
  exact or_comm

end Sums

end Formula
