import Mathlib.Logic.Equiv.Basic
import FlatPlan.Proofs.DrawnNames
import FlatPlan.Proofs.RelabelledRuns

/-!
# Independence of the name generator

The answer of a run does not depend on the stem of the fresh names or on where their numbers start,
up to the names themselves. The names that one generator issues next are exchanged for those of
another number by number (`FreshNames.exchange`). Main statement: a run with the second generator
succeeds if and only if one with the first does, draws as many names, and answers the flat query and
the environment of the first with the fresh names exchanged (`Query.alike_flatten_exchange`).
-/

namespace FlatPlan

open Pass

namespace FreshNames

variable {g g' : FreshNames} {name : String} {count : Nat}

/-- Whether a name differs from all names of the generator, whatever their numbers. -/
def Spares (g : FreshNames) (name : String) : Prop := ∀ n, name ≠ numbered g.stem n

/-- The next `count` names of `g` exchanged for those of `g'`; other names stay. -/
def exchange (g g' : FreshNames) (count : Nat) (name : String) : String :=
  match (List.range count).find? fun i => name == g.next i with
  | some i => g'.next i
  | none => name

theorem next_injective : Function.Injective g.next := by
  intro i j same
  have numbers := numbered_injective same
  omega

theorem Spares.ne_next (spares : g.Spares name) (i : Nat) : name ≠ g.next i := spares _

theorem exchange_next {i : Nat} (below : i < count) :
    g.exchange g' count (g.next i) = g'.next i := by
  unfold exchange
  split
  case h_1 j found =>
    have same := List.find?_some found
    rw [next_injective (beq_iff_eq.1 same)]
  case h_2 absent =>
    have differs := List.find?_eq_none.1 absent i (List.mem_range.2 below)
    exact absurd (beq_self_eq_true _) differs

theorem exchange_of_spares (spares : g.Spares name) : g.exchange g' count name = name := by
  unfold exchange
  split
  case h_1 j found =>
    have same := List.find?_some found
    exact absurd (beq_iff_eq.1 same) (spares.ne_next j)
  case h_2 => rfl

/-! ## Renamings from one generator to another -/

/-- Finitely many names can be taken to others by a permutation that keeps whatever is none of
both. -/
theorem exists_perm {a b : Nat → String} (ha : Function.Injective a) (hb : Function.Injective b)
    (n : Nat) :
    ∃ π : Equiv.Perm String, (∀ i, i < n → π (a i) = b i) ∧
      ∀ name, (∀ i, name ≠ a i) → (∀ i, name ≠ b i) → π name = name := by
  induction n with
  | zero => exact ⟨.refl _, fun _ below => absurd below (Nat.not_lt_zero _), fun _ _ _ => rfl⟩
  | succ n ih =>
    obtain ⟨π, takes, keeps⟩ := ih
    -- the last name goes where it has to, and what was there goes where the last name was
    refine ⟨π.trans (Equiv.swap (π (a n)) (b n)), fun i below => ?_, fun name apart apart' => ?_⟩
    · rw [Equiv.trans_apply]
      rcases Nat.lt_succ_iff_lt_or_eq.1 below with before | rfl
      · have source : π (a i) ≠ π (a n) := fun same => Nat.ne_of_lt before (ha (π.injective same))
        have target : π (a i) ≠ b n := by
          rw [takes i before]
          exact fun same => Nat.ne_of_lt before (hb same)
        rw [Equiv.swap_apply_of_ne_of_ne source target, takes i before]
      · exact Equiv.swap_apply_left _ _
    · have stays := keeps name apart apart'
      rw [Equiv.trans_apply, stays]
      refine Equiv.swap_apply_of_ne_of_ne (fun same => apart n (π.injective ?_)) (apart' n)
      rw [stays, same]

variable {own : String → Prop}

/-- The next names of any two generators can be exchanged. -/
theorem exists_renaming (apart : ∀ name, own name → g.Spares name ∧ g'.Spares name) (count : Nat) :
    Nonempty (Renaming own g g' count) := by
  obtain ⟨π, takes, keeps⟩ := exists_perm (next_injective (g := g)) (next_injective (g := g')) count
  exact ⟨⟨π, π.injective, fun name declared => keeps name (apart name declared).1.ne_next
    (apart name declared).2.ne_next, takes⟩⟩

/-- A name that is neither own nor among the next ones can be swapped for another without any change
to these. -/
theorem exists_swap (apart : ∀ name, own name → g.Spares name) (foreign : ¬own name)
    (later : ∀ i, i < count → name ≠ g.next i) :
    ∃ r : Renaming own g g count, r.map name ≠ name := by
  obtain ⟨j, beyond, other⟩ : ∃ j, count ≤ j ∧ g.next j ≠ name := by
    by_cases same : g.next count = name
    · refine ⟨count + 1, Nat.le_succ count, fun again => ?_⟩
      exact absurd (next_injective (again.trans same.symm)) (Nat.succ_ne_self count)
    · exact ⟨count, Nat.le_refl count, same⟩
  refine ⟨⟨Equiv.swap name (g.next j), Equiv.injective _, fun declared known => ?_,
    fun i below => ?_⟩, ?_⟩
  · refine Equiv.swap_apply_of_ne_of_ne ?_ ((apart declared known).ne_next j)
    rintro rfl
    exact foreign known
  · refine Equiv.swap_apply_of_ne_of_ne (later i below).symm fun same => ?_
    exact Nat.ne_of_lt (Nat.lt_of_lt_of_le below beyond) (next_injective same)
  · change Equiv.swap name (g.next j) name ≠ name
    rw [Equiv.swap_apply_left]
    exact other

end FreshNames

/-! ## Environments, bound names included -/

theorem NameMap.insertAll_append {α : Type} : ∀ (entries : List (String × α)) (m : NameMap α),
    (m.entries ++ entries).Pairwise (fun a b => a.1 < b.1) →
    (m.insertAll entries).entries = m.entries ++ entries
  | [], m, _ => (List.append_nil _).symm
  | entry :: entries, m, ascending => by
    have last : ∀ l : List (String × α), (∀ e ∈ l, e.1 < entry.1) →
        place entry.1 entry.2 l = l ++ [entry] := by
      intro l below
      induction l with
      | nil => rfl
      | cons first l ih =>
        rw [List.forall_mem_cons] at below
        rw [place, if_neg (String.lt_asymm below.1),
          if_neg (fun same => String.lt_irrefl _ (same ▸ below.1)), ih below.2]
        rfl
    have placed : (m.insert entry.1 entry.2).entries = m.entries ++ [entry] :=
      last m.entries fun e member =>
        (List.pairwise_append.1 ascending).2.2 e member entry List.mem_cons_self
    rw [List.append_cons, ← placed] at ascending
    rw [List.append_cons, ← placed]
    exact insertAll_append entries _ ascending

theorem NameMap.ofList_entries {α : Type} (m : NameMap α) : ofList m.entries = m :=
  ext (insertAll_append m.entries empty m.ascending)

namespace Environment

variable {σ τ : String → String} {env : Environment}

/-- An environment under new names, bound names included. -/
def relabel (σ : String → String) (env : Environment) : Environment :=
  .ofList (env.entries.map fun entry => (σ entry.1, entry.2.relabel σ))

theorem relabel_congr (agree : ∀ name ∈ env.mentions, σ name = τ name) :
    env.relabel σ = env.relabel τ := by
  refine congrArg NameMap.ofList (List.map_congr_left fun entry member => Prod.ext ?_ ?_)
  · exact agree entry.1 (List.mem_flatMap.2 ⟨entry, member, List.mem_cons_self⟩)
  · exact Expr.relabel_eq_relabel.2 fun name among =>
      agree name (List.mem_flatMap.2 ⟨entry, member, List.mem_cons_of_mem _ among⟩)

theorem relabel_eq_rebind (fixed : ∀ entry ∈ env.entries, σ entry.1 = entry.1) :
    env.relabel σ = env.rebind σ := by
  have same : env.entries.map (fun entry => (σ entry.1, entry.2.relabel σ)) =
      (env.rebind σ).entries :=
    List.map_congr_left fun entry member => Prod.ext (fixed entry member) rfl
  rw [relabel, same, NameMap.ofList_entries]

end Environment

/-! ## Names of an answer -/

namespace Query

variable {own : String → Prop} {sources : Query → Prop} {check : Regime} {s t : PassState}
  {q flat : Query} {env : Environment} {count : Nat}

/-- The names of an answer are own ones or drawn during the run, since swapping any other for a
third name makes no difference to the run. -/
theorem own_or_next (apart : ∀ name, own name → s.names.Spares name)
    (registered : ∀ q, sources q → q.Everywhere (.equivariant check.rules own sources))
    (plan : q.Everywhere (.equivariant check.rules own sources))
    (run : (q.flatten check).Yields s (flat, env) t)
    (drawn : t.names.issued ≤ s.names.issued + count) :
    (∀ name ∈ flat.mentions, own name ∨ ∃ i, i < count ∧ name = s.names.next i) ∧
      ∀ name ∈ env.mentions, own name ∨ ∃ i, i < count ∧ name = s.names.next i := by
  -- a renaming that keeps the own and the drawn names pairs the run with itself
  have unchanged : ∀ r : Renaming own s.names s.names count, flat.relabel r.map = flat ∧
      env.rebind r.map = env := by
    intro r
    have covers : r.Covers ((q.flatten check).runFrom s).2 := by
      rw [run]
      exact drawn
    have alike := ((follows_flatten r registered plan).runs ⟨0, rfl, rfl⟩ covers).1
    rw [run] at alike
    have same := alike.eq_of_ok
    exact ⟨(congrArg Prod.fst same).symm, (congrArg Prod.snd same).symm⟩
  have known : ∀ name, (∀ r : Renaming own s.names s.names count, r.map name = name) →
      own name ∨ ∃ i, i < count ∧ name = s.names.next i := by
    intro name fixed
    by_contra neither
    obtain ⟨r, moved⟩ := FreshNames.exists_swap apart (fun declared => neither (.inl declared))
      fun i below same => neither (.inr ⟨i, below, same⟩)
    exact moved (fixed r)
  refine ⟨fun name member => known name fun r => relabel_eq_self.1 (unchanged r).1 name member, ?_⟩
  refine Environment.mentions_iff.2 fun name rep found => ⟨?_, ?_⟩
  · exact .inl (mentioned_names (mentioning_of_and (fun _ => id) plan) run found)
  · rw [Expr.everywhere_mentioning]
    intro other member
    refine known other fun r => Expr.relabel_eq_self.1 ?_ other member
    have same : (env.rebind r.map).find? name = env.find? name := by rw [(unchanged r).2]
    rw [Environment.rebind, NameMap.find?_map, found, Option.map_some] at same
    exact Option.some.inj same

/-- Flattening with two name generators of which the plan and the queries that its operators look up
use no names: both runs draw equally many names, and both fail or answer the same, with the names of
the first generator exchanged for those of the second. `sources` are the queries that operators look
up. -/
theorem alike_flatten_exchange (check : Regime) (s s' : PassState)
    (registered : ∀ q, sources q →
      q.Everywhere
        (.equivariant check.rules (fun name => s.names.Spares name ∧ s'.names.Spares name) sources))
    (plan : q.Everywhere
      (.equivariant check.rules (fun name => s.names.Spares name ∧ s'.names.Spares name) sources)) :
    ∃ drawn, ((q.flatten check).runFrom s).2.names = ⟨s.names.stem, s.names.issued + drawn⟩ ∧
      ((q.flatten check).runFrom s').2.names = ⟨s'.names.stem, s'.names.issued + drawn⟩ ∧
      Alike (fun answer => (answer.1.relabel (s.names.exchange s'.names drawn),
          answer.2.relabel (s.names.exchange s'.names drawn)))
        ((q.flatten check).runFrom s).1 ((q.flatten check).runFrom s').1 := by
  obtain ⟨count, total⟩ := Nat.exists_eq_add_of_le (q.flatten_advances check s).issued
  obtain ⟨r⟩ := FreshNames.exists_renaming (fun _ => id) count
  obtain ⟨alike, drawn, after, after'⟩ :=
    (follows_flatten r registered plan).runs ⟨0, rfl, rfl⟩ (Nat.le_of_eq total)
  obtain rfl : count = drawn := by
    rw [after] at total
    exact (Nat.add_left_cancel total).symm
  refine ⟨count, after, after', alike.congr fun answer run => ?_⟩
  -- the renaming may move names that the exchange keeps, but none of those in the answer
  have agree : ∀ name, (s.names.Spares name ∧ s'.names.Spares name) ∨
      (∃ i, i < count ∧ name = s.names.next i) →
      r.map name = s.names.exchange s'.names count name := by
    rintro name (spared | ⟨i, below, rfl⟩)
    · rw [r.fixes name spared, FreshNames.exchange_of_spares spared.1]
    · rw [r.takes i below, FreshNames.exchange_next below]
  have yields : (q.flatten check).Yields s answer ((q.flatten check).runFrom s).2 :=
    Prod.ext run rfl
  obtain ⟨onFlat, onEnv⟩ :=
    own_or_next (fun _ => And.left) registered plan yields (Nat.le_of_eq total)
  refine Prod.ext (relabel_eq_relabel.2 fun name member => agree name (onFlat name member)) ?_
  have fixed : ∀ entry ∈ answer.2.entries, r.map entry.1 = entry.1 := fun entry member =>
    r.fixes entry.1 (mentioned_names (mentioning_of_and (fun _ => id) plan) yields
      (NameMap.find?_eq_some_iff.2 member))
  exact (Environment.relabel_eq_rebind fixed).symm.trans
    (Environment.relabel_congr fun name member => agree name (onEnv name member))

end Query

namespace Sample

/-- A generator whose stem is itself a fresh name of the other one. -/
def nested : PassState := ⟨⟨"gx_1", 2⟩, []⟩

theorem nickname_commutes {rules : Rules} {σ : String → String} : nickname.Commutes rules σ := by
  have picked : ∀ (items : List Expr) (index : Nat) (missing : Misuse),
      Alike (Expr.relabel σ) (Template.pick items index missing)
        (Template.pick (items.map (Expr.relabel σ)) index missing) := by
    intro items index missing
    unfold Template.pick
    rw [List.getElem?_map]
    cases items[index]? with
    | none => exact .error _ _
    | some e => exact .ok e
  intro template member a _
  change template ∈ [Template.apply (.comparison "=") [.column 0, .arg 0], .column 1] at member
  rcases List.mem_cons.1 member with rfl | own
  · rw [Template.fill, Template.fill]
    simp only [Template.fillItems, bind_assoc]
    refine (picked a.columns 0 _).bind fun column _ => (picked a.args 0 _).bind
      fun arg _ => .of_eq ?_
    exact (Expr.relabel_apply _ [column, arg]).symm
  · rw [List.mem_singleton.1 own]
    exact picked a.columns 1 _

/-- The choice looks at the form of the arguments, which no renaming changes. -/
theorem greater_commutes {σ : String → String} : greater.Commutes rules σ := by
  intro template member a _
  change template ∈ [Template.rule "greater"] at member
  rw [List.mem_singleton.1 member]
  change Alike _ (choiceOfGreater a) (choiceOfGreater (a.relabel σ))
  unfold choiceOfGreater
  rw [Application.relabel]
  rcases a.args with _ | ⟨left, _ | ⟨right, _ | ⟨_, _⟩⟩⟩
  case cons.cons.nil =>
    simp only [List.map_cons, List.map_nil, Expr.isTuple_relabel]
    refine .ite (.error _ _) (.of_eq ?_)
    simp
  all_goals exact .error _ _

/-- Eight names are drawn from either generator, and those of the first exchanged for those of the
second. -/
theorem profiles_exchanged :
    ((profiles.flatten session.permissive).runFrom start).1.toOption.isSome = true ∧
      ((profiles.flatten session.permissive).runFrom nested).2.names = ⟨"gx_1", 10⟩ ∧
      Alike (fun answer => (answer.1.relabel (start.names.exchange nested.names 8),
          answer.2.relabel (start.names.exchange nested.names 8)))
        ((profiles.flatten session.permissive).runFrom start).1
        ((profiles.flatten session.permissive).runFrom nested).1 := by
  have plain : ∀ name : String, '_' ∉ name.toList → start.names.Spares name ∧
      nested.names.Spares name :=
    fun name noUnderscore => ⟨FreshNames.ne_numbered noUnderscore _,
      FreshNames.ne_numbered noUnderscore _⟩
  have registered : ∀ q, q = tableN → q.Everywhere
      (.equivariant rules (fun name => start.names.Spares name ∧ nested.names.Spares name)
        (· = tableN)) := by
    rintro q rfl
    exact table_mentioning plain (fun _ => trivial) (by decide)
  have plan : profiles.Everywhere
      (.equivariant rules (fun name => start.names.Spares name ∧ nested.names.Spares name)
        (· = tableN)) := by
    refine profiles_mentioning plain (fun _ => trivial) (fun _ => trivial)
      ⟨fun _ _ _ => nickname_commutes, fun _ found => (Option.some.inj found).symm⟩
      ⟨fun _ _ _ => greater_commutes, fun _ found => (by cases found)⟩ ?_ ?_
    all_goals
      rintro e ⟨⟩ σ _ _
      simp
  obtain ⟨drawn, after, after', alike⟩ :=
    Query.alike_flatten_exchange session.permissive start nested registered plan
  have eight : (⟨"gx", 8⟩ : FreshNames) = ⟨"gx", 0 + drawn⟩ := after
  obtain rfl : 8 = drawn := (congrArg FreshNames.issued eight).trans (Nat.zero_add drawn)
  exact ⟨rfl, after', alike⟩

end Sample

end FlatPlan
