import FlatPlan.Proofs.Fitting
import FlatPlan.Proofs.SampleVocabulary

/-!
# Unstructured columns stay themselves

A projection that renames a structured attribute keeps the old name bound, so that the name may meet
an unstructured column later. Main statement: on an accepted plan an unstructured column is not
bound, and a reference to it stays as it is, unless a product puts such a column beside an operand
that still binds its name (`Query.unbound_of_unstructured`). A projection may use the name again
(`Sample.reusedName_unbound`); in a product the old binding wins (`Sample.shadowedName_bound`).
-/

namespace FlatPlan

/-- What the nodes of a plan keep to so that no unstructured column is captured: tables have no
structured columns and galaxies have one, the output names of a projection differ, templates answer
no tuple for an unstructured type, and no product has an unstructured column on the right that the
left still binds. -/
def Session.unshadowed (x : Session) : NodeProperty where
  expr
    | .apply op _ => op.hasTemplate = true → op.Fitting x False
    | _ => True
  query
    | .table _ schema => ∀ c ∈ schema.columns, c.2.isStructured = false
    | .galaxy g => g.type.isStructured = true
    | .project columns _ => (columns.map Prod.fst).Nodup
    | .combine .product left right => x.NoShadow left right
    | _ => True

variable {x : Session} {q flat : Query} {schema : Schema} {env : Environment} {s t : PassState}

/-- An operator without a template answers scalars. -/
theorem Operator.fitting_of_noTemplate {op : Operator} (h : op.hasTemplate = false) :
    op.Fitting x False := by
  refine fitting_of_noTuple (isTuple_of_flatten ?_) (fun impossible => impossible.elim)
  unfold hasTemplate at h
  cases form : op.flattening with
  | plain => exact .inl rfl
  | componentwise joiner => exact .inr ⟨joiner, rfl⟩
  | template result => rw [form] at h; cases h
  | lookup source condition result => rw [form] at h; cases h

theorem Query.fitting_of_unshadowed (plan : q.Everywhere x.unshadowed) :
    q.Everywhere (x.fitting False) := by
  refine plan.imp (fun e node => ?_) (fun q node => ?_)
  · cases e with
    | apply op args =>
      cases template : op.hasTemplate with
      | true => exact node template
      | false => exact Operator.fitting_of_noTemplate template
    | const type value => exact fun impossible => impossible.elim
    | null type => exact fun impossible => impossible.elim
    | _ => trivial
  · cases q with
    | table name schema => exact fun c member => Ty.isStructured_eq_false.1 (node c member)
    | galaxy g => exact ⟨node, fun impossible => impossible.elim⟩
    | project columns input => exact node
    | combine op left right =>
      cases op with
      | product => exact node
      | _ => trivial
    | _ => trivial

/-- On an accepted plan a column is bound only if its type is structured, and a reference to an
unstructured column is not rewritten. -/
theorem Query.unbound_of_unstructured (plan : q.Everywhere x.unshadowed)
    (accepted : q.checkSchema x.capabilities = .ok schema) (stem : s.names.stem = x.stem)
    (run : (q.flatten x.permissive).runFrom s = (.ok (flat, env), t)) :
    ∀ c ∈ schema.columns, (env.contains c.1 = true → c.2.isStructured = true) ∧
      (c.2.isStructured = false → ∀ check inner u,
        ((Expr.attr c.1).flatten check env inner).runFrom u = (.ok (.plain (.attr c.1)), u)) := by
  have fits := Query.flatten_fits q (Query.fitting_of_unshadowed plan) accepted ⟨stem, run⟩
  intro c member
  have unbound : c.2.isStructured = false → env.find? c.1 = none :=
    fun unstructured => fits.unbound c member (Ty.isStructured_eq_false.1 unstructured)
  constructor
  · intro bound
    by_contra other
    rw [NameMap.contains, unbound (by simpa using other)] at bound
    cases bound
  · intro unstructured check inner u
    refine Expr.yields_flatten_attr.2 ⟨?_, rfl⟩
    rw [Environment.resolve, unbound unstructured]
    rfl

namespace Sample

/-- The people under a new name with the rows of a table, and the old name given to a number. -/
def reusedName : Query :=
  .project [("p", .attr "a"), ("r", .attr "q")] (.combine .product renamedPeople tableT)

theorem unshadowed_renamedPeople : renamedPeople.Everywhere session.unshadowed := by
  simp only [renamedPeople, galaxyP, tableU, Query.everywhere_project, Query.everywhere_galaxy,
    Query.everywhere_table, Expr.everywhere_attr, Session.unshadowed, List.forall_mem_cons,
    List.not_mem_nil, false_implies, implies_true, and_true, true_and]
  exact ⟨by decide, rfl, rfl, rfl⟩

theorem unshadowed_reusedName : reusedName.Everywhere session.unshadowed := by
  simp only [reusedName, tableT, Query.everywhere_project, Query.everywhere_combine,
    Query.everywhere_table, Expr.everywhere_attr, Session.unshadowed, List.forall_mem_cons,
    List.not_mem_nil, false_implies, implies_true, and_true, true_and]
  refine ⟨by decide, ?_, unshadowed_renamedPeople, rfl, rfl⟩
  intro s t flat env leftSchema rightSchema flattens _ accepted c member _ _
  refine Query.unbound_of_project flattens.run ?_
  have columns := Query.names_of_schemaOf accepted ▸ Schema.mem_names_of_mem member
  simp only [Query.outputNames, Schema.names, List.map_cons, List.map_nil, List.mem_cons,
    List.not_mem_nil, or_false] at columns
  rcases columns with equal | equal <;> simp [equal]

theorem reusedName_unbound : ∃ flat env t,
    (reusedName.flatten session.permissive).runFrom start = (.ok (flat, env), t) ∧
      env.contains "p" = false ∧ env.contains "r" = true ∧
      ∀ c ∈ [("p", Ty.integer), ("r", personType)],
        (env.contains c.1 = true → c.2.isStructured = true) ∧
        (c.2.isStructured = false → ∀ check inner u,
          ((Expr.attr c.1).flatten check env inner).runFrom u = (.ok (.plain (.attr c.1)), u)) :=
  ⟨_, _, _, rfl, rfl, rfl, Query.unbound_of_unstructured (x := session) (s := start)
    unshadowed_reusedName rfl rfl rfl⟩

/-- The people under a new name beside a table that has the old name for a number. -/
def shadowedName : Query := .combine .product renamedPeople (.table "X" ⟨[("p", .integer)]⟩)

/-- An operator on numbers whose template answers a pair. -/
def paired : Operator where
  name := "pair"
  range _ _ := .ok .integer
  render := Operator.callText "pair"
  flattening := .template (.tuple [.arg 0, .arg 0])

/-- Where a product has an unstructured column of a name that the left still binds, a reference to
it is rewritten to the columns of the person; and a template that answers a tuple binds a column of
numbers. -/
theorem shadowedName_bound :
    (shadowedName.checkSchema .empty = .ok ⟨[("q", personType), ("p", .integer)]⟩ ∧
      ∃ flat env t, (shadowedName.flatten session.permissive).runFrom start = (.ok (flat, env), t) ∧
        env.resolve "p" = .tuple [.attr "gx_3", .attr "gx_4"]) ∧
    (Query.project [("n", .apply paired [.attr "a"])] tableT).checkSchema .empty =
      .ok ⟨[("n", .integer)]⟩ ∧ ∃ flat env t,
        ((Query.project [("n", .apply paired [.attr "a"])] tableT).flatten
          session.permissive).runFrom start = (.ok (flat, env), t) ∧
        env.resolve "n" = .tuple [.attr "gx_1", .attr "gx_2"] :=
  ⟨⟨rfl, _, _, _, rfl, rfl⟩, rfl, _, _, _, rfl, rfl⟩

end Sample

end FlatPlan
