import FlatPlan.Proofs.FlatProjection
import FlatPlan.Sample

/-!
# Conditions on plans, met

Simple ways to meet what an admissible plan keeps to: a name without underscore is not a fresh one,
a galaxy may stand for a table of the columns of its layout, and neither a galaxy nor a table
captures a column of another operand. With them the sample universe is a vocabulary
(`Sample.vocabulary`), and `Sample.roster` an admissible plan with most forms of queries and
expressions in it.
-/

namespace FlatPlan

open Pass

namespace Vocabulary

variable {v : Vocabulary}

/-- A galaxy that stands for a table of the columns of its layout. -/
theorem expands_table {name table : String} {type : Ty} {setup : Setup} {schema : Schema}
    {l : Layout} (layout : type.layout? = some l)
    (types : schema.columns.map Prod.snd = l.columns.map Prod.snd) :
    v.Expands ⟨name, type, setup, .table table schema⟩ l where
  layout := layout
  accepted := ⟨schema, Query.schemaOf_table.2 rfl⟩
  types {s t flat env flatSchema} flattens typed := by
    obtain ⟨rfl, rfl, rfl⟩ := Query.yields_flatten_table.1 flattens.run
    rw [Query.schemaOf_table.1 typed]
    exact types

end Vocabulary

namespace Sample

/-- The base types of the sample universe, by name. -/
def baseType? (name : String) : Option BaseTy :=
  if name = "person" then personType.base? else (Ty.builtin? name).bind Ty.base?

/-- The structured type of the sample universe is that of people. -/
theorem eq_person_of_layout {name : String} {b : BaseTy} {l : Layout}
    (known : baseType? name = some b) (layout : b.layout = some l) : personType = .base b ∧
    l = personLayout := by
  unfold baseType? Ty.builtin? at known
  split at known
  · cases known
    cases layout
    exact ⟨rfl, rfl⟩
  · split at known <;> cases known <;> cases layout

/-- The sample universe as a vocabulary. -/
def vocabulary : Vocabulary where
  capabilities := .empty
  rules := rules
  stem := "gx"
  base? := baseType?
  builtin := by
    simp only [Ty.builtins, List.forall_mem_cons]
    exact ⟨rfl, rfl, rfl, rfl, fun _ member => nomatch member⟩
  columns {b l} known layout := by
    obtain ⟨_, rfl⟩ := eq_person_of_layout known layout
    simp only [personLayout, List.forall_mem_cons]
    exact ⟨⟨rfl, rfl, rfl⟩, ⟨rfl, rfl, rfl⟩, fun _ member => nomatch member⟩
  encode {b l value} known layout member := by
    obtain ⟨person, rfl⟩ := eq_person_of_layout known layout
    cases person
    obtain ⟨⟨first, last⟩, names⟩ := Option.isSome_iff_exists.1 member
    refine ⟨[.string first, .string last], rfl, ?_⟩
    simp only [Layout.stored, personLayout, names]
    rfl
  not_numeric {b} known layout := by
    obtain ⟨l, own⟩ := Option.isSome_iff_exists.1 layout
    cases (eq_person_of_layout known own).1
    rfl
  not_ordered {b} known layout := by
    obtain ⟨l, own⟩ := Option.isSome_iff_exists.1 layout
    cases (eq_person_of_layout known own).1
    rfl

/-- The sample universe, with the stem of its fresh names. -/
def session : Session := vocabulary.toSession

/-- No name drawn yet. -/
def start : PassState := ⟨.start "gx", []⟩

/-- The people of the table of names, as values of the structured type. -/
def galaxyP : Galaxy := ⟨"p", personType, .done, tableU⟩

/-- The people under a new name. -/
def renamedPeople : Query := .project [("q", .attr "p")] (.galaxy galaxyP)

/-- The people under a new name, beside the rows of a table. -/
def renamedRows : Query := .combine .product renamedPeople tableT

theorem eq_of_mem_tableT {name : String} (member : name ∈ tableT.outputNames) :
    name = "a" ∨ name = "b" := by
  have columns : tableT.outputNames = ["a", "b"] := rfl
  rw [columns] at member
  simpa using member

/-- One person. -/
def ada : Expr := .const personType (person "Ada" "Lovelace")

/-- Whether a row has that person and the number one. -/
def isFirstAda : Expr :=
  .apply (.comparison "=") [.tuple [.attr "p", .attr "a"],
    .tuple [ada, .const .integer (.integer 1)]]

/-- The rows of the table of numbers with all people, without that person at the number one. -/
def rowsOfPeople : Query :=
  .restrict (.apply .negation [isFirstAda]) (.combine .product (.galaxy galaxyP) tableT)

/-- The person of a row with a small number, and otherwise nobody. -/
def smallPerson : Expr :=
  .case [(.apply (.comparison "<") [.attr "a", .const .integer (.integer 3)], .attr "p")]
    (.null (.nullable personType))

/-- The number of people. -/
def headcount : Query := .grouping [("n", .aggregate .count (.attr "p"))] (.galaxy galaxyP)

/-- A person who goes by one name. -/
def plato : Expr := .const mononymType (.string "Plato")

/-- The number one. -/
def one : Expr := .const .integer (.integer 1)

/-- The nickname of a text, the greater of two numbers, a person of one name and one of the
people. -/
def profiles : Query :=
  .project [("n", .apply nickname [.attr "b"]), ("m", .apply greater [.attr "a", one]),
    ("k", plato), ("q", .attr "p")] (.combine .product (.galaxy galaxyP) tableT)

/-- The persons of rows with small numbers, and a row without person for each row of the table. -/
def persons : Query :=
  .combine .union
    (.project [("q", smallPerson), ("n", .attr "a")] rowsOfPeople)
    (.project [("q", .null (.nullable personType)), ("n", .scalarSubquery headcount)] tableT)

/-- The first persons by descending number. -/
def roster : Query := .top 1 10 (.order [(.attr "n", .desc)] persons)

/-- The columns of the plan. -/
def rosterSchema : Schema := ⟨[("q", .nullable personType), ("n", .integer)]⟩

theorem roster_accepted : roster.checkSchema .empty = .ok rosterSchema := rfl

theorem table_admissible {name : String} {schema : Schema} (distinct : schema.names.Nodup)
    (columns : ∀ c ∈ schema.columns, '_' ∉ c.1.toList ∧ vocabulary.Names c.2 ∧
      c.2.isScalar = true) :
    (Query.table name schema).Everywhere vocabulary.admissible := by
  rw [Query.everywhere_table]
  exact ⟨distinct, fun c member => ⟨Session.declares_of_noUnderscore (columns c member).1,
    (columns c member).2⟩⟩

theorem tableT_admissible : tableT.Everywhere vocabulary.admissible := by
  refine table_admissible (by decide) ?_
  simp only [List.forall_mem_cons, List.not_mem_nil, false_implies, implies_true, and_true]
  exact ⟨⟨by decide, rfl, rfl⟩, by decide, rfl, rfl⟩

theorem tableU_admissible : tableU.Everywhere vocabulary.admissible := by
  refine table_admissible (by decide) ?_
  simp only [List.forall_mem_cons, List.not_mem_nil, false_implies, implies_true, and_true]
  exact ⟨⟨by decide, rfl, rfl⟩, by decide, rfl, rfl⟩

theorem galaxyP_admissible : (Query.galaxy galaxyP).Everywhere vocabulary.admissible := by
  rw [Query.everywhere_galaxy]
  exact ⟨⟨Session.declares_of_noUnderscore (by decide), rfl, personLayout,
    Vocabulary.expands_table rfl rfl⟩, tableU_admissible⟩

theorem rowsOfPeople_admissible : rowsOfPeople.Everywhere vocabulary.admissible := by
  rw [rowsOfPeople, Query.everywhere_restrict, Query.everywhere_combine]
  refine ⟨trivial, ?_, Session.noCapture_galaxy, galaxyP_admissible, tableT_admissible⟩
  simp only [isFirstAda, ada, Expr.everywhere_apply, Expr.everywhere_tuple, List.forall_mem_cons,
    List.not_mem_nil, false_implies, implies_true, and_true, Expr.everywhere_attr,
    Expr.everywhere_const]
  refine ⟨?_, ?_, ⟨trivial, trivial, trivial⟩, trivial, ⟨rfl, fun _ _ _ _ _ => rfl⟩, rfl, ?_⟩
  · simp [Vocabulary.admissible, Operator.standard]
  · simp [Vocabulary.admissible, Operator.standard]
  · intro _ _ layout
    cases layout

theorem smallPerson_admissible : smallPerson.Everywhere vocabulary.admissible := by
  simp only [smallPerson, Expr.everywhere_case, Expr.everywhere_apply, List.forall_mem_cons,
    List.not_mem_nil, false_implies, implies_true, and_true, Expr.everywhere_attr,
    Expr.everywhere_const, Expr.everywhere_null]
  refine ⟨trivial, ⟨⟨?_, trivial, rfl, ?_⟩, trivial⟩, rfl⟩
  · simp [Vocabulary.admissible, Operator.standard]
  · intro _ _ layout
    cases layout

theorem headcount_admissible : headcount.Everywhere vocabulary.admissible := by
  simp only [headcount, Query.everywhere_grouping, Expr.everywhere_aggregate, Expr.everywhere_attr,
    List.forall_mem_cons, List.not_mem_nil, false_implies, implies_true, and_true]
  exact ⟨Session.declares_all (by decide), ⟨trivial, trivial⟩, galaxyP_admissible⟩

theorem persons_admissible : persons.Everywhere vocabulary.admissible := by
  simp only [persons, Query.everywhere_combine, Query.everywhere_project, List.forall_mem_cons,
    List.not_mem_nil, false_implies, implies_true, and_true, Expr.everywhere_attr,
    Expr.everywhere_null, Expr.everywhere_scalarSubquery]
  exact ⟨trivial, ⟨Session.declares_all (by decide), ⟨smallPerson_admissible, trivial⟩,
    rowsOfPeople_admissible⟩, Session.declares_all (by decide),
      ⟨rfl, trivial, headcount_admissible⟩, tableT_admissible⟩

theorem roster_admissible : roster.Everywhere vocabulary.admissible := by
  simp only [roster, Query.everywhere_top, Query.everywhere_order, List.forall_mem_cons,
    List.not_mem_nil, false_implies, implies_true, and_true, Expr.everywhere_attr]
  exact ⟨trivial, trivial, trivial, persons_admissible⟩

theorem roster_distinct : roster.Everywhere .distinctOutputs := by
  simp [roster, persons, rowsOfPeople, isFirstAda, smallPerson, headcount, ada, galaxyP, tableT,
    tableU, NodeProperty.distinctOutputs]

end Sample

end FlatPlan
