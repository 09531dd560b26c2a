import OxigraphCloud.Sparql.SimpleEvaluator

-- What the operators of the evaluator give, one solution at a time.

open Rdf PartialMap

theorem EvalDataset.exists_quad_of_mem [DecidableEq T] {d : EvalDataset T}
    (h : q ∈ d.internalQuadsForPattern s p o g) :
    ∃ q' ∈ d.quads, q.subject = q'.subject ∧ q.predicate = q'.predicate ∧
      q.object = q'.object ∧ ∀ n ∈ q.graphName, n ∈ q'.graphName := by
  rw [internalQuadsForPattern.eq_def] at h
  split at h
  case h_1 =>
    simp only [List.mem_ite_nil_right] at h
    exact ⟨q, List.mem_of_mem_filter h.2, rfl, rfl, rfl, fun _ => id⟩
  case h_2 =>
    split at h <;> have ⟨q', hq', h⟩ := List.mem_map.mp h <;> subst h
    case h_1 =>
      have ⟨_, _, hq'⟩ := List.mem_flatMap.mp hq'
      exact ⟨q', List.mem_of_mem_filter hq', rfl, rfl, rfl, nofun⟩
    case h_2 => exact ⟨q', List.mem_of_mem_filter hq', rfl, rfl, rfl, nofun⟩
  case h_3 =>
    split at h
    case h_1 =>
      have ⟨_, _, h⟩ := List.mem_flatMap.mp h
      exact ⟨q, List.mem_of_mem_filter h, rfl, rfl, rfl, fun _ => id⟩
    case h_2 =>
      exact ⟨q, List.mem_of_mem_filter (List.mem_of_mem_filter h), rfl, rfl, rfl, fun _ => id⟩

namespace Sparopt

namespace TermContext

variable {T : Type} {C : TermContext T} {μ μ' : InternalTuple T}

theorem kind_ofBool (b : Bool) : C.kind (C.ofBool b) = .literal :=
  C.kind_literal

theorem encodeGroundTerm_kind (term : GroundTerm) :
    ∃ t, C.encodeGroundTerm term = some t ∧ C.kind t =
      match term with
      | .namedNode _ => .namedNode
      | .literal _ => .literal
      | .triple .. => .triple := by
  induction term
  case namedNode => exact ⟨_, rfl, C.kind_namedNode⟩
  case literal => exact ⟨_, rfl, C.kind_literal⟩
  case triple s p o ih =>
    have ⟨o', ho, _⟩ := ih
    have hs : (C.encodeTriple (C.internalizeNamedNode s) (C.internalizeNamedNode p) o').isSome :=
      C.encodeTriple_isSome
    have ⟨t, ht⟩ := Option.isSome_iff_exists.mp hs
    exact ⟨t, by simp [encodeGroundTerm, ho, ht], (C.kind_triple <| C.decodeTriple_iff.mpr ht).1⟩

theorem kind_evalUnary (h : C.evalUnary a op = some t) : C.kind t = .literal := by
  cases op
  case not =>
    have ⟨_, _, h⟩ := Option.map_eq_some_iff.mp h
    exact h ▸ C.kind_ofBool _
  all_goals exact C.kind_sign h

theorem getPatternValue_mono (hm : μ ≤ μ') {selector : TupleSelector T}
    (h : C.getPatternValue μ selector = some x) : C.getPatternValue μ' selector = some x := by
  induction selector generalizing x
  case constant => exact h
  case «variable» v => exact hm v x h
  case triplePattern hs hp ho =>
    simp only [getPatternValue, Option.bind_eq_bind, Option.bind_eq_some_iff] at h ⊢
    have ⟨s, h₁, p, h₂, o, h₃, h⟩ := h
    exact ⟨s, hs h₁, p, hp h₂, o, ho h₃, h⟩

variable [DecidableEq T]

theorem kind_evalBinary (h : C.evalBinary a b op = some t) : C.kind t = .literal := by
  cases op
  case add | subtract | multiply | divide => exact C.kind_arithmetic h
  case sameTerm => exact Option.some.inj h ▸ C.kind_ofBool _
  all_goals
    have ⟨_, _, h⟩ := Option.map_eq_some_iff.mp h
    exact h ▸ C.kind_ofBool _

-- A value that a tuple has already can be put to it again.
theorem putPatternValue_of_getPatternValue {selector : TupleSelector T}
    (h : C.getPatternValue μ selector = some x) : C.putPatternValue selector x μ = some μ := by
  induction selector generalizing x
  case constant => simp [putPatternValue, Option.some.inj h]
  case «variable» v =>
    rw [getPatternValue] at h
    simp [putPatternValue, h]
  case triplePattern hs hp ho =>
    simp only [getPatternValue, Option.bind_eq_bind, Option.bind_eq_some_iff] at h
    have ⟨s, h₁, p, h₂, o, h₃, h⟩ := h
    simp [putPatternValue, C.decodeTriple_iff.mpr h, hs h₁, hp h₂, ho h₃]

theorem le_of_putPatternValue {selector : TupleSelector T}
    (h : C.putPatternValue selector x μ = some μ') : μ ≤ μ' := by
  induction selector generalizing x μ μ'
  case constant =>
    simp only [putPatternValue, Option.ite_none_right_eq_some, Option.some.injEq] at h
    exact h.2.le
  case «variable» v =>
    rw [putPatternValue] at h
    split at h
    case h_1 =>
      simp only [Option.ite_none_right_eq_some, Option.some.injEq] at h
      exact h.2.le
    case h_2 hn => exact Option.some.inj h ▸ le_insert hn x
  case triplePattern hs hp ho =>
    simp only [putPatternValue, Option.bind_eq_bind, Option.bind_eq_some_iff] at h
    have ⟨_, _, _, h₁, _, h₂, h₃⟩ := h
    exact (hs h₁).trans <| (hp h₂).trans (ho h₃)

theorem lookup_of_putPatternValue (h : C.putPatternValue (.variable v) x μ = some μ') :
    μ'.lookup v = some x := by
  rw [putPatternValue] at h
  split at h
  case h_1 ho =>
    simp only [Option.ite_none_right_eq_some, Option.some.injEq] at h
    rw [← h.2, ho, h.1]
  case h_2 => simp [← Option.some.inj h]

end TermContext

namespace SimpleEvaluator

variable {T : Type} {E : SimpleEvaluator T} {μ μ' input : InternalTuple T}

theorem mem_of_mem_evalSlice (h : μ ∈ evalSlice start length tuples) : μ ∈ tuples := by
  cases length
  case none => exact List.mem_of_mem_drop h
  case some => exact List.mem_of_mem_drop <| List.mem_of_mem_take h

theorem mem_of_mem_arrange (h : μ ∈ E.arrange s) : μ ∈ s := by
  rw [← E.coe_arrange (s := s)]
  exact h

variable [DecidableEq T]

theorem le_of_putGraphName {selector : Option (TupleSelector T)}
    (h : E.putGraphName selector g μ = some μ') : μ ≤ μ' := by
  cases selector
  case none => exact (Option.some.inj h).le
  case some =>
    have ⟨_, _, h⟩ := Option.bind_eq_some_iff.mp h
    exact E.le_of_putPatternValue h

theorem putGraphName_of_inputGraphName {selector : Option (TupleSelector T)} (hm : μ ≤ μ')
    (h : E.inputGraphName selector μ = some g) : E.putGraphName selector g μ' = some μ' := by
  cases selector
  case none => rfl
  case some =>
    have ⟨x, hx, h⟩ := Option.map_eq_some_iff.mp h
    subst h
    exact E.putPatternValue_of_getPatternValue (E.getPatternValue_mono hm hx)

theorem evalExpressions_eq_map (es : List Expression) (μ : InternalTuple T) :
    E.evalExpressions es μ = es.map (E.evalExpression · μ) := by
  induction es
  case nil => rfl
  case cons ih => simp [evalExpressions, ih]

theorem evalExpression_if (cond then' els : Expression) (μ : InternalTuple T) :
    E.evalExpression (.if cond then' els) μ =
      ((E.evalExpression cond μ).bind E.effectiveBooleanValue).bind fun b =>
        if b then E.evalExpression then' μ else E.evalExpression els μ := by
  rw [evalExpression]
  cases E.evalExpression cond μ <;> rfl

theorem evalAggregates_map_fst (aggregates : List (Variable × AggregateExpression))
    (s : Multiset (InternalTuple T)) :
    (E.evalAggregates aggregates s).map Prod.fst = aggregates.map Prod.fst := by
  induction aggregates
  case nil => rfl
  case cons ih => simp [evalAggregates, ih]

theorem mem_evalUnion {ps : List GraphPattern} :
    μ ∈ E.evalUnion ps input ↔ ∃ p ∈ ps, μ ∈ E.evalGraphPattern p input := by
  induction ps
  case nil => simp [evalUnion]
  case cons ih => simp [evalUnion, ih]

theorem mem_hashJoin (h : μ ∈ E.hashJoin keys s t) :
    ∃ x ∈ s, ∃ y ∈ t, x.combineWith y = some μ := by
  simp only [hashJoin, get, Multiset.mem_bind, Multiset.mem_filterMap, Multiset.mem_filter] at h
  have ⟨y, hy, x, ⟨hx, _⟩, h⟩ := h
  exact ⟨x, hx, y, hy, combineWith_comm y x ▸ h⟩

theorem evalGraphPattern_of_isEmptySingleton {p : GraphPattern} (h : p.isEmptySingleton) :
    E.evalGraphPattern p input = {input} := by
  cases p <;> simp only [GraphPattern.isEmptySingleton, reduceCtorEq] at h
  case values vars bindings =>
    simp only [Bool.and_eq_true, decide_eq_true_eq, List.length_eq_one_iff] at h
    have ⟨⟨row, hb⟩, h⟩ := h
    subst hb
    have h : ∀ x ∈ row, x = none := by simpa using h
    have he : E.encodeBinding vars row = ⊥ := setAll_eq_self _ fun entry he => by
      have ⟨x, hx, he⟩ := List.mem_map.mp (List.of_mem_zip he).2
      rw [← he, h x hx, Option.bind_none]
    simp [evalGraphPattern, evalValues, he, combineWith_of_le bot_le]

theorem evalGraphPattern_lateral {left right : GraphPattern}
    (h : ∀ nl nr e keys, right ≠ .leftJoin nl nr e keys) :
    E.evalGraphPattern (.lateral left right) input =
      (E.evalGraphPattern left input).bind (E.evalGraphPattern right) := by
  cases right
  case leftJoin nl nr e keys => exact absurd rfl (h nl nr e keys)
  all_goals rw [evalGraphPattern.eq_def]

theorem mem_orElse (h : μ ∈ orElse x s) : μ = x ∨ μ ∈ s := by
  rw [orElse] at h
  split at h
  case isTrue => exact .inl <| Multiset.mem_singleton.mp h
  case isFalse => exact .inr h

theorem mem_hashLeftJoin (h : μ ∈ E.hashLeftJoin keys e s t) :
    μ ∈ s ∨ ∃ x ∈ s, ∃ y ∈ t, x.combineWith y = some μ := by
  have ⟨x, hx, h⟩ := Multiset.mem_bind.mp h
  match mem_orElse h with
  | .inl h => exact .inl (h ▸ hx)
  | .inr h =>
    simp only [get, Multiset.mem_filter, Multiset.mem_filterMap] at h
    have ⟨⟨y, ⟨hy, _⟩, h⟩, _⟩ := h
    exact .inr ⟨x, hx, y, hy, h⟩

theorem mem_evalPath {subject object : TupleSelector T} {graphName : Option (TupleSelector T)}
    (h : μ ∈ E.evalPath subject path object graphName input) :
    ∃ s o g μ₁ μ₂, E.putPatternValue subject s input = some μ₁ ∧
      E.putPatternValue object o μ₁ = some μ₂ ∧ E.putGraphName graphName g μ₂ = some μ := by
  have get {selector x μ} (h : E.getPatternValue input selector = some x) (hm : input ≤ μ) :
      E.putPatternValue selector x μ = some μ :=
    E.putPatternValue_of_getPatternValue (E.getPatternValue_mono hm h)
  rw [evalPath] at h
  split at h
  case h_1 s o g hs ho hg =>
    simp only [List.mem_ite_nil_right, List.mem_singleton] at h
    have ⟨_, h⟩ := h
    subst h
    exact ⟨s, o, g, _, _, get hs le_rfl, get ho le_rfl, putGraphName_of_inputGraphName le_rfl hg⟩
  case h_2 s g hs ho hg =>
    have ⟨o, _, h⟩ := List.mem_filterMap.mp h
    exact ⟨s, o, g, _, _, get hs le_rfl, h,
      putGraphName_of_inputGraphName (E.le_of_putPatternValue h) hg⟩
  case h_3 o g hs ho hg =>
    have ⟨s, _, h⟩ := List.mem_filterMap.mp h
    have hm := E.le_of_putPatternValue h
    exact ⟨s, o, g, _, _, h, get ho hm, putGraphName_of_inputGraphName hm hg⟩
  case h_4 g hs ho hg =>
    have ⟨(s, o), _, h⟩ := List.mem_filterMap.mp h
    have ⟨μ₁, h₁, h₂⟩ := Option.bind_eq_some_iff.mp h
    exact ⟨s, o, g, μ₁, μ, h₁, h₂, putGraphName_of_inputGraphName
      ((E.le_of_putPatternValue h₁).trans (E.le_of_putPatternValue h₂)) hg⟩
  case h_5 s o hs ho hg =>
    have ⟨g, _, h⟩ := List.mem_filterMap.mp h
    exact ⟨s, o, g, _, _, get hs le_rfl, get ho le_rfl, h⟩
  case h_6 s hs ho hg =>
    have ⟨(o, g), _, h⟩ := List.mem_filterMap.mp h
    have ⟨μ₂, h₂, h⟩ := Option.bind_eq_some_iff.mp h
    exact ⟨s, o, g, _, μ₂, get hs le_rfl, h₂, h⟩
  case h_7 o hs ho hg =>
    have ⟨(s, g), _, h⟩ := List.mem_filterMap.mp h
    have ⟨μ₁, h₁, h⟩ := Option.bind_eq_some_iff.mp h
    exact ⟨s, o, g, μ₁, μ₁, h₁, get ho (E.le_of_putPatternValue h₁), h⟩
  case h_8 =>
    have ⟨(s, o, g), _, h⟩ := List.mem_filterMap.mp h
    have ⟨μ₁, h₁, h⟩ := Option.bind_eq_some_iff.mp h
    have ⟨μ₂, h₂, h⟩ := Option.bind_eq_some_iff.mp h
    exact ⟨s, o, g, μ₁, μ₂, h₁, h₂, h⟩

theorem mem_evalGraph {graphName : TupleSelector T} (h : μ ∈ E.evalGraph graphName input) :
    ∃ g, E.putPatternValue graphName g input = some μ := by
  rw [evalGraph] at h
  split at h
  case h_1 g hg =>
    simp only [List.mem_ite_nil_right, List.mem_singleton] at h
    have ⟨_, h⟩ := h
    subst h
    exact ⟨g, E.putPatternValue_of_getPatternValue hg⟩
  case h_2 =>
    have ⟨g, _, h⟩ := List.mem_filterMap.mp h
    exact ⟨g, h⟩

end SimpleEvaluator

-- The terms of RDF with as few operations as there can be: the functions that have to give a value
-- give a fixed one, and there is no arithmetic.
def TermContext.rdf : TermContext Term where
  kind
    | .namedNode _ => .namedNode
    | .blankNode _ => .blankNode
    | .literal _ => .literal
    | .triple .. => .triple
  internalizeNamedNode := .namedNode
  internalizeLiteral := .literal
  encodeTriple
    | .namedNode s, .namedNode p, o => some (.triple (.namedNode s) p o)
    | .blankNode s, .namedNode p, o => some (.triple (.blankNode s) p o)
    | _, _, _ => none
  decodeTriple
    | .triple s p o => some (s.toTerm, .namedNode p, o)
    | _ => none
  effectiveBooleanValue
    | .literal l => (Expression.literal l).effectiveBooleanValue
    | _ => none
  equals a b := some (a = b)
  partialCmp _ _ := none
  arithmetic _ _ _ := none
  sign _ _ := none
  call f args :=
    if f.isTotal args then
      some <| match f with
        | .uuid => .namedNode ""
        | .bnode => .blankNode (.named "")
        | _ => .literal (.string "")
    else none
  kind_namedNode := rfl
  kind_literal := rfl
  decodeTriple_iff {t s p o} := by
    constructor
    case mp =>
      intro h
      cases t <;> simp only [reduceCtorEq, Option.some.injEq, Prod.mk.injEq] at h
      case triple s' _ _ =>
        have ⟨hs, hp, ho⟩ := h
        subst hs hp ho
        cases s' <;> rfl
    case mpr =>
      intro h
      split at h <;> cases h <;> rfl
  kind_triple {t s p o} h := by
    cases t <;> simp only [reduceCtorEq, Option.some.injEq, Prod.mk.injEq] at h
    case triple s' _ _ =>
      have ⟨hs, hp, _⟩ := h
      subst hs hp
      cases s' <;> simp [NamedOrBlankNode.toTerm]
  encodeTriple_isSome := rfl
  effectiveBooleanValue_boolean {b} := by
    cases b <;> simp [Expression.effectiveBooleanValue, Literal.datatype, Literal.value]
  kind_arithmetic := nofun
  kind_sign := nofun
  kind_call {f args u} h := by
    split at h
    case isFalse => cases h
    case isTrue hf =>
      cases h
      cases f <;> simp_all [Function.isTotal, Function.kinds]
  call_isSome h := by simp [h]

noncomputable def SimpleEvaluator.rdf (dataset : EvalDataset Term) (namedGraphs : List Term)
    (h : ∀ q ∈ dataset.quads, TermContext.rdf.kind q.subject ≠ .literal ∧
      TermContext.rdf.kind q.predicate = .namedNode) : SimpleEvaluator Term where
  toTermContext := .rdf
  dataset := dataset
  namedGraphs := namedGraphs
  rounds := 0
  hash _ := 0
  arrange := Multiset.toList
  integer _ := none
  accumulator _ _ := none
  evaluateService _ _ _ := none
  kind_quad hq := h _ hq
  coe_arrange := Multiset.coe_toList _

end Sparopt
