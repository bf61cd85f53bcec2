import Mathlib.Data.List.Nodup
import FlatPlan.Proofs.CheckedMode
import FlatPlan.Proofs.FlatNames

/-!
# Schemas of products

A product has the columns of its left operand and those of its right operand that have new names,
the first of each name (`Schema.extendedBy`). Main statement: products associate, and the product of
any number of queries, in any grouping and with any number of empty relations among them, has the
first column of each name in the order of the queries; in checked mode it is refused exactly if two
of the queries have a name in common (`Query.products_associate`).
-/

namespace FlatPlan

/-! ## The first column of each name -/

namespace Schema

/-- The first column of each name, in order. -/
def firstOfNames : List Column → List Column
  | [] => []
  | c :: cs => c :: (firstOfNames cs).filter fun d => d.1 ≠ c.1

/-- The schema with the first column of each new name behind its own columns. -/
def extendedBy (s : Schema) (cs : List Column) : Schema :=
  ⟨s.columns ++ (firstOfNames cs).filter fun c => c.1 ∉ s.names⟩

/-- The first column of each name of schemas, in order. -/
def firstOfAll (schemas : List Schema) : Schema := ⟨firstOfNames (schemas.flatMap columns)⟩

variable {s left right : Schema} {cs ds : List Column} {name : String}

theorem nodup_firstOfNames (cs : List Column) : ((firstOfNames cs).map Prod.fst).Nodup := by
  induction cs with
  | nil => exact .nil
  | cons c cs ih =>
    rw [firstOfNames, List.map_cons, List.nodup_cons]
    exact ⟨by simp, ih.sublist (List.filter_sublist.map _)⟩

theorem firstOfNames_of_nodup (distinct : (cs.map Prod.fst).Nodup) : firstOfNames cs = cs := by
  induction cs with
  | nil => rfl
  | cons c cs ih =>
    rw [List.map_cons, List.nodup_cons] at distinct
    rw [firstOfNames, ih distinct.2, List.filter_eq_self.2]
    intro d member
    exact decide_eq_true fun equal => distinct.1 (equal ▸ List.mem_map_of_mem member)

theorem extendedBy_nil (s : Schema) : s.extendedBy [] = s := by
  rw [extendedBy, firstOfNames, List.filter_nil, List.append_nil]

theorem empty_extendedBy (cs : List Column) : empty.extendedBy cs = ⟨firstOfNames cs⟩ := by
  simp [extendedBy, empty, names]

/-- Columns are added one after the other, unless there is one of their name already. -/
theorem extendedBy_cons (s : Schema) (c : Column) (cs : List Column) :
    s.extendedBy (c :: cs) = (if s.contains c.1 then s else s.push c.1 c.2).extendedBy cs := by
  cases known : s.contains c.1 with
  | true =>
    rw [contains_iff] at known
    rw [if_pos rfl, extendedBy, extendedBy, firstOfNames, List.filter_cons_of_neg (by
      simpa using known),
      List.filter_filter]
    refine congrArg (fun rest => Schema.mk (s.columns ++ rest)) (List.filter_congr fun d _ => ?_)
    have other : d.1 ∉ s.names → d.1 ≠ c.1 := fun absent equal => absent (equal ▸ known)
    simpa using other
  | false =>
    rw [contains_eq_false] at known
    have behind : (s.push c.1 c.2).names = s.names ++ [c.1] := by simp [names, push]
    rw [if_neg Bool.false_ne_true, extendedBy, extendedBy, firstOfNames,
      List.filter_cons_of_pos (by simpa using known), List.filter_filter, behind, push,
      List.append_assoc, List.singleton_append]
    refine congrArg (fun rest => Schema.mk (s.columns ++ c :: rest)) (List.filter_congr
      fun d _ => ?_)
    simp

theorem extendedBy_append (s : Schema) (cs ds : List Column) :
    s.extendedBy (cs ++ ds) = (s.extendedBy cs).extendedBy ds := by
  induction cs generalizing s with
  | nil => rw [List.nil_append, extendedBy_nil]
  | cons c cs ih => rw [List.cons_append, extendedBy_cons, extendedBy_cons, ih]

/-- A name means the first column that has it. -/
theorem get?_extendedBy (s : Schema) (cs : List Column) (name : String) :
    (s.extendedBy cs).get? name = (s.get? name).or (cs.lookup name) := by
  induction cs generalizing s with
  | nil => rw [extendedBy_nil, List.lookup_nil, Option.or_none]
  | cons c cs ih =>
    obtain ⟨own, type⟩ := c
    rw [extendedBy_cons, ih, List.lookup_cons]
    cases known : s.contains own with
    | true =>
      rw [if_pos rfl]
      by_cases equal : name = own
      · subst equal
        obtain ⟨type, found⟩ := Option.isSome_iff_exists.1 known
        rw [found, Option.some_or, Option.some_or]
      · rw [beq_eq_false_iff_ne.2 equal]
    | false =>
      rw [if_neg Bool.false_ne_true, push, get?, get?, List.lookup_append, Option.or_assoc]
      by_cases equal : name = own
      · subst equal
        simp
      · simp [List.lookup_cons, beq_eq_false_iff_ne.2 equal]

/-- Columns behind those of another schema are added as if they all stood in one list. -/
theorem extendedBy_extendedBy (s t : Schema) (cs : List Column) :
    s.extendedBy (t.extendedBy cs).columns = s.extendedBy (t.columns ++ cs) := by
  induction cs generalizing t with
  | nil => rw [extendedBy_nil, List.append_nil]
  | cons c cs ih =>
    rw [extendedBy_cons, ih]
    cases known : t.contains c.1 with
    | true =>
      have added : (s.extendedBy t.columns).contains c.1 = true := by
        rw [contains, get?_extendedBy, Option.isSome_or]
        exact Bool.or_eq_true_iff.2 (.inr known)
      rw [if_pos rfl, extendedBy_append, extendedBy_append, extendedBy_cons, if_pos added]
    | false => rw [if_neg Bool.false_ne_true, push, List.append_assoc, List.singleton_append]

/-- All columns of a schema that stands apart are added. -/
theorem extendedBy_of_apart (apart : left.Apart right) :
    left.extendedBy right.columns = ⟨left.columns ++ right.columns⟩ := by
  rw [extendedBy, firstOfNames_of_nodup apart.distinct, List.filter_eq_self.2]
  exact fun c member => decide_eq_true (apart.disjoint c member)

theorem apart_append : left.Apart ⟨cs ++ ds⟩ ↔ left.Apart ⟨cs⟩ ∧
    (mk (left.columns ++ cs)).Apart ⟨ds⟩ := by
  have names : (mk (left.columns ++ cs)).names = left.names ++ cs.map Prod.fst := List.map_append
  constructor
  · rintro ⟨disjoint, distinct⟩
    rw [List.forall_mem_append] at disjoint
    rw [Schema.names, List.map_append, List.nodup_append] at distinct
    obtain ⟨first, second, between⟩ := distinct
    refine ⟨⟨disjoint.1, first⟩, fun c member own => ?_, second⟩
    rcases List.mem_append.1 (names ▸ own) with own | own
    · exact disjoint.2 c member own
    · exact between _ own _ (List.mem_map_of_mem member) rfl
  · rintro ⟨⟨disjoint, first⟩, behind, second⟩
    rw [names] at behind
    refine ⟨List.forall_mem_append.2 ⟨disjoint, fun c member own => ?_⟩, ?_⟩
    · exact behind c member (List.mem_append_left _ own)
    · rw [Schema.names, List.map_append, List.nodup_append]
      refine ⟨first, second, fun a own b other equal => ?_⟩
      obtain ⟨c, member, rfl⟩ := List.mem_map.1 other
      exact behind c member (List.mem_append_right _ (equal ▸ own))

theorem firstOfAll_append (ss ts : List Schema) :
    firstOfAll (ss ++ ts) = (firstOfAll ss).extendedBy (firstOfAll ts).columns := by
  rw [firstOfAll, firstOfAll, firstOfAll, ← empty_extendedBy, ← empty_extendedBy,
    ← empty_extendedBy, extendedBy_extendedBy, List.flatMap_append, extendedBy_append,
    show (empty.columns : List Column) = [] from rfl, List.nil_append]

theorem firstOfAll_of_apart {schemas : List Schema}
    (apart : empty.Apart ⟨schemas.flatMap columns⟩) :
    firstOfAll schemas = ⟨schemas.flatMap columns⟩ :=
  congrArg mk (firstOfNames_of_nodup apart.distinct)

/-- All columns of schemas can stand side by side if no two of the schemas have a name in common. -/
theorem apart_iff_pairwise {schemas : List Schema} (distinct : ∀ s ∈ schemas, s.names.Nodup) :
    empty.Apart ⟨schemas.flatMap columns⟩ ↔ schemas.Pairwise fun s t =>
      ∀ name ∈ s.names, name ∉ t.names := by
  have allNames : (schemas.flatMap columns).map Prod.fst = schemas.flatMap names := List.map_flatMap
  constructor
  · intro apart
    exact (List.nodup_flatMap.1 (allNames ▸ apart.distinct)).2
  · intro apart
    refine ⟨fun _ _ => List.not_mem_nil, ?_⟩
    rw [names, allNames]
    exact List.nodup_flatMap.2 ⟨distinct, apart⟩

/-! ## Products of schemas -/

variable {check : TypeCheck} {schema : Schema}

theorem product_permissive (capabilities : Capabilities) (left right : Schema) :
    product ⟨false, capabilities⟩ left right = .ok (left.extendedBy right.columns) := by
  unfold product
  simp only [Bool.false_eq_true, if_false]
  generalize right.columns = cs
  induction cs generalizing left with
  | nil => rw [extendedBy_nil]; rfl
  | cons c cs ih =>
    rw [List.foldlM_cons, extendedBy_cons]
    cases left.contains c.1 with
    | true => exact ih left
    | false => exact ih (left.push c.1 c.2)

/-- A product has the columns of the left operand and the first ones of each new name of the right
operand; in checked mode all names of the right operand have to be new. -/
theorem product_eq_ok : product check left right = .ok schema ↔
    (check.checked = true → left.Apart right) ∧ schema = left.extendedBy right.columns := by
  obtain ⟨checked, capabilities⟩ := check
  cases checked with
  | false =>
    rw [product_permissive, Except.ok.injEq, eq_comm]
    simp
  | true =>
    rw [product_strict]
    constructor
    · rintro ⟨apart, rfl⟩
      exact ⟨fun _ => apart, (extendedBy_of_apart apart).symm⟩
    · rintro ⟨apart, rfl⟩
      exact ⟨apart rfl, extendedBy_of_apart (apart rfl)⟩

/-- A product is refused for no other reason than schemas that do not fit. -/
theorem product_eq_error {e : Error} (h : product check left right = .error e) :
    e = .schemaMismatch .product left.text right.text := by
  unfold product at h
  refine foldlM_error (motive := (· = .schemaMismatch .product left.text right.text))
    (fun s c e step => ?_) h
  split at step
  · split at step
    · exact (Except.error.inj step).symm
    · cases step
  · cases step

/-- Products grouped to the left. -/
theorem product_product_left {left middle right schema : Schema} :
    (product check left middle >>= fun both => product check both right) = .ok schema ↔
      (check.checked = true → left.Apart ⟨middle.columns ++ right.columns⟩) ∧
        schema = left.extendedBy (middle.columns ++ right.columns) := by
  simp only [bind_eq_ok, product_eq_ok, extendedBy_append, apart_append]
  constructor
  · rintro ⟨both, ⟨first, rfl⟩, second, rfl⟩
    refine ⟨fun checked => ⟨first checked, ?_⟩, rfl⟩
    exact extendedBy_of_apart (first checked) ▸ second checked
  · rintro ⟨apart, rfl⟩
    refine ⟨_, ⟨fun checked => (apart checked).1, rfl⟩, fun checked => ?_, rfl⟩
    exact (extendedBy_of_apart (apart checked).1).symm ▸ (apart checked).2

/-- Products grouped to the right. -/
theorem product_product_right {left middle right schema : Schema} :
    (product check middle right >>= product check left) = .ok schema ↔
      (check.checked = true → left.Apart ⟨middle.columns ++ right.columns⟩) ∧
        schema = left.extendedBy (middle.columns ++ right.columns) := by
  simp only [bind_eq_ok, product_eq_ok]
  constructor
  · rintro ⟨both, ⟨first, rfl⟩, second, rfl⟩
    refine ⟨fun checked => ?_, extendedBy_extendedBy left middle right.columns⟩
    exact extendedBy_of_apart (first checked) ▸ second checked
  · rintro ⟨apart, rfl⟩
    have first : check.checked = true → middle.Apart right := by
      intro checked
      have distinct := (apart checked).distinct
      rw [names, List.map_append, List.nodup_append] at distinct
      obtain ⟨_, second, between⟩ := distinct
      exact ⟨fun c member own => between _ own _ (mem_names_of_mem member) rfl, second⟩
    refine ⟨_, ⟨first, rfl⟩, fun checked => ?_,
      (extendedBy_extendedBy left middle right.columns).symm⟩
    exact (extendedBy_of_apart (first checked)).symm ▸ apart checked

end Schema

/-! ## Products of queries -/

namespace Query

variable {check : TypeCheck} {a b c : Query}

theorem schemaOf_product (a b : Query) : (combine .product a b).schemaOf check =
    (a.schemaOf check >>= fun l => b.schemaOf check >>= fun r => Schema.product check l r) := by
  rw [schemaOf]
  rfl

/-- The empty relation makes no difference beside a query whose columns have different names. -/
theorem schemaOf_combination (distinct : ∀ r, b.schemaOf check = .ok r → r.names.Nodup) :
    (combination .product a b).schemaOf check = (combine .product a b).schemaOf check := by
  rcases combination_product a b with ⟨rfl, equal⟩ | ⟨rfl, equal⟩ | equal
  · rw [equal, schemaOf_product, schemaOf_empty.2 rfl]
    cases right : b.schemaOf check with
    | error e => rfl
    | ok r =>
      have apart : Schema.empty.Apart r := ⟨fun _ _ => List.not_mem_nil, distinct r right⟩
      exact (Schema.product_of_apart apart).symm
  · rw [equal, schemaOf_product, schemaOf_empty.2 rfl]
    cases a.schemaOf check <;> rfl
  · rw [equal]

/-- A product of queries in this order, in some grouping, where the empty relation is left out or
not. -/
inductive ProductOf : List Query → Query → Prop
  | none : ProductOf [] .empty
  | one (q : Query) : ProductOf [q] q
  | combination {as bs : List Query} {a b : Query} (left : ProductOf as a)
      (right : ProductOf bs b) :
      ProductOf (as ++ bs) (Query.combination .product a b)
  | combine {as bs : List Query} {a b : Query} (left : ProductOf as a) (right : ProductOf bs b) :
      ProductOf (as ++ bs) (.combine .product a b)

theorem productOf_productAll (qs : List Query) : ProductOf qs (productAll qs) := by
  suffices general : ∀ (before : List Query) (p : Query), ProductOf before p →
      ProductOf (before ++ qs) (qs.foldl (Query.combination .product) p) from
    general [] .empty .none
  induction qs with
  | nil =>
    intro before p product
    rwa [List.append_nil]
  | cons q qs ih =>
    intro before p product
    have next := ih (before ++ [q]) _ (product.combination (.one q))
    rwa [List.append_assoc] at next

/-- What inference answers of a product of queries with these schemas. -/
structure ProductSchema (check : TypeCheck) (schemas : List Schema) (p : Query) : Prop where
  ok : ∀ s, p.schemaOf check = .ok s ↔
    (check.checked = true → Schema.empty.Apart ⟨schemas.flatMap Schema.columns⟩) ∧
    s = .firstOfAll schemas
  error : ∀ e, p.schemaOf check = .error e → ∃ left right, e = .schemaMismatch .product left right

namespace ProductSchema

variable {ss ts : List Schema}

/-- The product of two products has the columns of both. -/
theorem combine (left : ProductSchema check ss a) (right : ProductSchema check ts b) :
    ProductSchema check (ss ++ ts) (.combine .product a b) := by
  refine ⟨fun s => ?_, fun e h => ?_⟩
  · rw [schemaOf_product]
    simp only [bind_eq_ok, left.ok, right.ok, Schema.product_eq_ok, List.flatMap_append,
      Schema.apart_append, Schema.firstOfAll_append]
    constructor
    · rintro ⟨_, ⟨leftApart, rfl⟩, _, ⟨rightApart, rfl⟩, apart, rfl⟩
      refine ⟨fun checked => ⟨leftApart checked, ?_⟩, rfl⟩
      have apart := apart checked
      rwa [Schema.firstOfAll_of_apart (leftApart checked),
        Schema.firstOfAll_of_apart (rightApart checked)] at apart
    · rintro ⟨apart, rfl⟩
      have rightApart : check.checked = true → Schema.empty.Apart ⟨ts.flatMap Schema.columns⟩ :=
        fun checked => ⟨fun _ _ => List.not_mem_nil, (apart checked).2.distinct⟩
      refine ⟨_, ⟨fun checked => (apart checked).1, rfl⟩, _, ⟨rightApart, rfl⟩,
        fun checked => ?_, rfl⟩
      rw [Schema.firstOfAll_of_apart (apart checked).1,
        Schema.firstOfAll_of_apart (rightApart checked)]
      exact (apart checked).2
  · rw [schemaOf_product, bind_eq_error] at h
    rcases h with fault | ⟨l, _, h⟩
    · exact left.error e fault
    · rcases bind_eq_error.1 h with fault | ⟨r, _, fault⟩
      · exact right.error e fault
      · exact ⟨_, _, Schema.product_eq_error fault⟩

theorem combination (left : ProductSchema check ss a) (right : ProductSchema check ts b) :
    ProductSchema check (ss ++ ts) (Query.combination .product a b) := by
  have distinct : ∀ r, b.schemaOf check = .ok r → r.names.Nodup := by
    intro r h
    rw [((right.ok r).1 h).2]
    exact Schema.nodup_firstOfNames _
  have same := schemaOf_combination (a := a) distinct
  exact ⟨fun s => same ▸ (left.combine right).ok s, fun e => same ▸ (left.combine right).error e⟩

theorem of_distinct {q : Query} {s : Schema} (own : q.schemaOf check = .ok s)
    (distinct : s.names.Nodup) :
    ProductSchema check [s] q := by
  have columns : [s].flatMap Schema.columns = s.columns := by simp
  have apart : Schema.empty.Apart ⟨[s].flatMap Schema.columns⟩ := by
    rw [columns]
    exact ⟨fun _ _ => List.not_mem_nil, distinct⟩
  refine ⟨fun t => ?_, fun e h => ?_⟩
  · rw [own, Except.ok.injEq, Schema.firstOfAll_of_apart apart, columns, eq_comm]
    exact ⟨fun equal => ⟨fun _ => columns ▸ apart, equal⟩, fun h => h.2⟩
  · rw [own] at h
    cases h

/-- Any grouping of the queries has the columns of all of them. -/
theorem of_productOf {qs : List Query} {p : Query} (product : ProductOf qs p)
    {schemas : List Schema}
    (typed : List.Forall₂ (fun q s => q.schemaOf check = .ok s ∧ s.names.Nodup) qs schemas) :
    ProductSchema check schemas p := by
  induction product generalizing schemas with
  | none =>
    cases typed
    refine ⟨fun s => ?_, fun e h => ?_⟩
    · rw [schemaOf_empty]
      exact ⟨fun equal => ⟨fun _ => ⟨fun _ _ => List.not_mem_nil, .nil⟩, equal⟩, fun h => h.2⟩
    · rw [schemaOf_empty.2 rfl] at h
      cases h
  | one q =>
    obtain ⟨s, _, ⟨own, distinct⟩, rest, rfl⟩ := List.forall₂_cons_left_iff.1 typed
    cases rest
    exact of_distinct own distinct
  | combination _ _ ihl ihr =>
    obtain ⟨ss, ts, rfl, left, right⟩ := exists_of_forall₂_append typed
    exact (ihl left).combination (ihr right)
  | combine _ _ ihl ihr =>
    obtain ⟨ss, ts, rfl, left, right⟩ := exists_of_forall₂_append typed
    exact (ihl left).combine (ihr right)

end ProductSchema

/-- With or without the empty relation left out, products of three queries have the same columns in
both groupings. -/
theorem schemaOf_combination_assoc {s : Schema} (raw : ∀ s,
      (combine .product (combine .product a b) c).schemaOf check = .ok s ↔
        (combine .product a (combine .product b c)).schemaOf check = .ok s) :
    (combination .product (combination .product a b) c).schemaOf check = .ok s ↔
      (combination .product a (combination .product b c)).schemaOf check = .ok s := by
  by_cases ha : a = .empty
  · rw [ha, combination_empty_left, combination_empty_left]
  by_cases hb : b = .empty
  · rw [hb, combination_empty_right, combination_empty_left]
  by_cases hc : c = .empty
  · rw [hc, combination_empty_right, combination_empty_right]
  have some : ∀ left right, combine .product left right ≠ .empty := by
    intro left right equal
    cases equal
  rw [combination_of_ne ha hb, combination_of_ne hb hc, combination_of_ne (some a b) hc,
    combination_of_ne ha (some b c)]
  exact raw s

/-- Products associate, in both modes and whether the empty relation is left out of them or not:
both groupings have the columns of the first operand and the first column of each name that the
others add, or both are refused. The product of queries whose columns have different names has the
first column of each name in the order of the queries, in any grouping, and if operators treat the
modes as inference does permissive mode finds the same columns as checked mode. In checked mode it
is refused exactly if two of the queries have a name in common, and for that reason. -/
theorem products_associate (capabilities : Capabilities) :
    (∀ (check : TypeCheck) (a b c : Query) (l m r : Schema), a.schemaOf check = .ok l →
      b.schemaOf check = .ok m → c.schemaOf check = .ok r → ∀ s,
        ((combine .product (combine .product a b) c).schemaOf check = .ok s ↔
          (combine .product a (combine .product b c)).schemaOf check = .ok s) ∧
        ((combination .product (combination .product a b) c).schemaOf check = .ok s ↔
          (combination .product a (combination .product b c)).schemaOf check = .ok s) ∧
        ((combine .product (combine .product a b) c).schemaOf check = .ok s ↔
          (check.checked = true → l.Apart ⟨m.columns ++ r.columns⟩) ∧
          s = l.extendedBy (m.columns ++ r.columns))) ∧
    ∀ (qs : List Query) (schemas : List Schema),
      List.Forall₂ (fun q s => q.checkSchema capabilities = .ok s ∧ s.names.Nodup) qs schemas →
        ProductOf qs (productAll qs) ∧ ∀ p, ProductOf qs p →
          (∀ inferred, List.Forall₂ (fun q s => q.inferSchema capabilities = .ok s ∧ s.names.Nodup)
            qs inferred → p.inferSchema capabilities = .ok (.firstOfAll inferred)) ∧
          ((∀ q ∈ qs, q.Everywhere (.refiningOperators capabilities)) →
            p.inferSchema capabilities = .ok (.firstOfAll schemas)) ∧
          (schemas.Pairwise (fun s t => ∀ name ∈ s.names, name ∉ t.names) →
            p.checkSchema capabilities = .ok (.firstOfAll schemas)) ∧
          (¬schemas.Pairwise (fun s t => ∀ name ∈ s.names, name ∉ t.names) →
            ∃ left right, p.checkSchema capabilities =
              .error (.schemaMismatch .product left right)) := by
  refine ⟨fun check a b c l m r typedA typedB typedC s => ?_, fun qs schemas typed =>
    ⟨productOf_productAll qs, fun p product => ?_⟩⟩
  · have left : ∀ s, (combine .product (combine .product a b) c).schemaOf check = .ok s ↔
        (check.checked = true → l.Apart ⟨m.columns ++ r.columns⟩) ∧
        s = l.extendedBy (m.columns ++ r.columns) := by
      intro s
      rw [schemaOf_product, schemaOf_product, typedA, typedB, typedC]
      exact Schema.product_product_left
    have right : ∀ s, (combine .product a (combine .product b c)).schemaOf check = .ok s ↔
        (check.checked = true → l.Apart ⟨m.columns ++ r.columns⟩) ∧
        s = l.extendedBy (m.columns ++ r.columns) := by
      intro s
      rw [schemaOf_product, schemaOf_product, typedA, typedB, typedC]
      exact Schema.product_product_right
    have raw := fun s => (left s).trans (right s).symm
    exact ⟨raw s, schemaOf_combination_assoc raw, left s⟩
  · have permissive : ∀ inferred, List.Forall₂ (fun q s => q.inferSchema capabilities = .ok s ∧
        s.names.Nodup) qs inferred → p.inferSchema capabilities = .ok (.firstOfAll inferred) := by
      intro inferred typed
      have answer : ProductSchema ⟨false, capabilities⟩ inferred p := .of_productOf product typed
      exact (answer.ok _).2 ⟨fun checked => absurd checked Bool.false_ne_true, rfl⟩
    refine ⟨permissive, fun operators => permissive schemas ?_, ?_⟩
    · refine forall₂_imp_of_mem typed fun q member s _ h => ⟨?_, h.2⟩
      exact ((CheckedMode.refinesCases capabilities).query q (operators q member)).accepts s h.1
    · have answer : ProductSchema ⟨true, capabilities⟩ schemas p := .of_productOf product typed
      have distinct : ∀ s ∈ schemas, s.names.Nodup := by
        intro s member
        obtain ⟨q, _, h⟩ := exists_of_mem_right typed member
        exact h.2
      have pairwise := Schema.apart_iff_pairwise distinct
      refine ⟨fun apart => (answer.ok _).2 ⟨fun _ => pairwise.2 apart, rfl⟩, fun shared => ?_⟩
      cases h : p.schemaOf ⟨true, capabilities⟩ with
      | ok s => exact absurd (pairwise.1 (((answer.ok s).1 h).1 rfl)) shared
      | error e =>
        obtain ⟨left, right, rfl⟩ := answer.error e h
        exact ⟨left, right, h⟩

end Query

namespace Sample

/-- A table with two columns of one name. -/
def tableTwice : Query := .table "D" ⟨[("b", .integer), ("b", .string)]⟩

/-- The rows of a table beside people and nicknames, grouped to the right and with an empty relation
among them. -/
def nicknamedRows : Query :=
  .combine .product tableT (.combine .product (.combine .product .empty (.galaxy galaxyP)) tableN)

/-- The first column of a name stays in both groupings, also of a table that has it twice. People,
rows and nicknames have no name in common; the rows beside themselves do, so that only permissive
mode accepts them. -/
theorem products_grouped :
    (∀ s, (Query.combine .product (.combine .product tableT tableTwice) tableN).inferSchema .empty =
      .ok s ↔
      (Query.combine .product tableT (.combine .product tableTwice tableN)).inferSchema
        .empty = .ok s) ∧
    nicknamedRows.inferSchema .empty =
      .ok
        ⟨[("a", .integer), ("b", .string), ("p", personType), ("name", .string),
          ("nick", .string)]⟩ ∧
    nicknamedRows.checkSchema .empty =
      .ok
        ⟨[("a", .integer), ("b", .string), ("p", personType), ("name", .string),
          ("nick", .string)]⟩ ∧
    (Query.productAll [tableT, .empty, tableT]).inferSchema .empty =
      .ok ⟨[("a", .integer), ("b", .string)]⟩ ∧
    ∃ left right, (Query.productAll [tableT, .empty, tableT]).checkSchema .empty =
      .error (.schemaMismatch .product left right) := by
  obtain ⟨assoc, products⟩ := Query.products_associate .empty
  have operators : ∀ q ∈ [tableT, .empty, .galaxy galaxyP, tableN],
      q.Everywhere (.refiningOperators .empty) := by
    simp [NodeProperty.refiningOperators, tableT, tableN, galaxyP, tableU]
  have people :=
    products [tableT, .empty, .galaxy galaxyP, tableN] [⟨[("a", .integer), ("b", .string)]⟩, .empty,
      .single "p" personType, ⟨[("name", .string), ("nick", .string)]⟩]
    (.cons ⟨rfl, by
      decide⟩ (.cons ⟨rfl, by decide⟩ (.cons ⟨rfl, by decide⟩ (.cons ⟨rfl, by decide⟩ .nil))))
  have twice := products [tableT, .empty, tableT] [⟨[("a", .integer), ("b", .string)]⟩, .empty,
    ⟨[("a", .integer), ("b", .string)]⟩] (.cons ⟨rfl, by
      decide⟩ (.cons ⟨rfl, by decide⟩ (.cons ⟨rfl, by decide⟩ .nil)))
  have grouping : Query.ProductOf [tableT, .empty, .galaxy galaxyP, tableN] nicknamedRows :=
    @Query.ProductOf.combine [tableT] _ _ _ (.one _)
      (@Query.ProductOf.combine [.empty, .galaxy galaxyP]
        _ _ _ (@Query.ProductOf.combine [.empty] _ _ _ (.one _) (.one _)) (.one _))
  exact ⟨fun s => (assoc _ _ _ _ _ _ _ rfl rfl rfl s).1, (people.2 _ grouping).2.1 operators,
    (people.2 _ grouping).2.2.1 (by decide),
    (twice.2 _ twice.1).1 [⟨[("a", .integer), ("b", .string)]⟩, .empty,
      ⟨[("a", .integer), ("b", .string)]⟩]
      (.cons ⟨rfl, by decide⟩ (.cons ⟨rfl, by decide⟩ (.cons ⟨rfl, by decide⟩ .nil))),
    (twice.2 _ twice.1).2.2.2 (by decide)⟩

end Sample

end FlatPlan
