import OxigraphCloud.Sparql.TypeInference
import OxigraphCloud.Sparql.Theorems.SimpleEvaluator

-- When the types that are inferred for the variables of a pattern admit what its solutions bind.

open Rdf PartialMap

namespace Sparopt

namespace VariableType

-- The outcomes that a type allows: no value, or a value of some kind.
def admits (t : VariableType) : Option TermKind → Bool
  | none => t.undef
  | some .namedNode => t.namedNode
  | some .blankNode => t.blankNode
  | some .literal => t.literal
  | some .triple => t.triple

theorem admits_bitor (a b : VariableType) (k : Option TermKind) :
    (a.bitor b).admits k = (a.admits k || b.admits k) := by
  rcases k with _ | _ | _ | _ | _ <;> rfl

theorem bitand_undefType (t : VariableType) : t.bitand undefType = t := by
  cases t
  simp [bitand, undefType]

theorem eq_undefType_of_bitand {a b : VariableType} (h : a.bitand b = undefType) :
    a = undefType := by
  cases a
  simp only [bitand, undefType, mk.injEq] at h ⊢
  grind

theorem admits_bitand {a b : VariableType} (ha : a.admits x) (hb : b.admits y)
    (h : ∀ k k', x = some k → y = some k' → k = k') : (a.bitand b).admits (x.or y) := by
  cases x <;> cases y
  case none.none => simp_all [admits, bitand]
  case none.some k => cases k <;> simp_all [admits, bitand]
  case some.none k => cases k <;> simp_all [admits, bitand]
  case some.some k k' =>
    cases h k k' rfl rfl
    cases k <;> simp_all [admits, bitand]

theorem admits_undefType : undefType.admits k ↔ k = none := by
  rcases k with _ | _ | _ | _ | _ <;> simp [admits, undefType]

theorem admits_orUndef {t : VariableType} (h : t.admits k) : t.orUndef.admits k := by
  rcases k with _ | _ | _ | _ | _ <;> simp_all [admits, orUndef]

theorem admits_of_undef {t : VariableType} (h : t.admits (some k)) :
    { t with undef := b }.admits (some k) := by
  cases k <;> exact h

theorem admits_anyType (k : Option TermKind) : anyType.admits k := by
  rcases k with _ | _ | _ | _ | _ <;> rfl

theorem admits_termType (k : TermKind) : termType.admits (some k) := by
  cases k <;> rfl

theorem admits_subjectType (h : k ≠ .literal) : subjectType.admits (some k) := by
  cases k <;> simp_all [admits, subjectType]

end VariableType

open VariableType

namespace VariableTypes

variable (types other : VariableTypes) (v v' : Variable)

@[simp]
theorem get_empty : get ∅ v = undefType :=
  rfl

theorem get_insert (t : VariableType) :
    get (types.insert v t) v' = if v' = v then t else types.get v' := by
  split
  case isTrue h =>
    subst h
    simp [get]
  case isFalse h => simp [get, AList.lookup_insert_ne h]

theorem get_intersectVariableWith (t : VariableType) :
    (types.intersectVariableWith v t).get v' =
      if v' = v then (types.get v').bitand t else types.get v' := by
  rw [intersectVariableWith]
  split
  case isTrue => rw [get_insert]; split <;> simp_all
  -- Nothing is stored only if both types leave the variable open.
  case isFalse h =>
    split
    case isTrue hv =>
      subst hv
      have hu : (types.get v').bitand t = undefType := by simpa using h
      rw [hu, eq_undefType_of_bitand hu]
    case isFalse => rfl

theorem lookup_mapValues (f : Variable → VariableType → VariableType) :
    (types.mapValues f).lookup v = (types.lookup v).map (f v) :=
  List.dlookup_map₂ v

theorem get_mapValues_orUndef :
    (types.mapValues fun _ t => t.orUndef).get v = (types.get v).orUndef := by
  rw [get, lookup_mapValues, get]
  cases types.lookup v <;> rfl

theorem get_filterVariables (p : Variable → Bool) :
    (types.filterVariables p).get v = if p v then types.get v else undefType := by
  have h : (types.filterVariables p).lookup v = if p v then types.lookup v else none := by
    simp only [AList.lookup, filterVariables]
    induction types.entries
    case nil => simp
    case cons entry entries ih =>
      obtain ⟨v', t⟩ := entry
      by_cases hv : v = v'
      case pos =>
        subst hv
        cases hp : p v <;> simp_all
      case neg => cases hp : p v' <;> simp_all [List.dlookup_cons_ne]
  rw [get, h, get]
  split <;> rfl

-- A fold over the types of distinct variables does its step once for each variable.
theorem get_foldl {f : VariableTypes → Variable → VariableType → VariableTypes}
    {g : VariableType → VariableType → VariableType}
    (hf : ∀ types v t v', (f types v t).get v' =
      if v' = v then g (types.get v') t else types.get v')
    {entries : List (Σ _ : Variable, VariableType)} (h : entries.NodupKeys) :
    (entries.foldl (fun types ⟨v, t⟩ => f types v t) types).get v =
      (entries.dlookup v).elim (types.get v) (g (types.get v)) := by
  induction entries generalizing types
  case nil => rfl
  case cons entry entries ih =>
    obtain ⟨v', t⟩ := entry
    have ⟨hn, h⟩ := List.nodupKeys_cons.mp h
    rw [List.foldl_cons, ih _ h, hf]
    by_cases hv : v = v'
    case pos =>
      subst hv
      simp [List.dlookup_eq_none.mpr hn]
    case neg => simp [hv, List.dlookup_cons_ne]

theorem get_intersectWith :
    (types.intersectWith other).get v = (types.get v).bitand (other.get v) := by
  refine (get_foldl _ _ (fun types v t v' => get_intersectVariableWith types v v' t)
    other.nodupKeys).trans ?_
  rw [get.eq_1 other]
  change Option.elim (other.lookup v) _ _ = _
  cases other.lookup v <;> simp [bitand_undefType]

theorem get_unionWith : (types.unionWith other).get v = (types.get v).bitor (other.get v) := by
  have hs (types : VariableTypes) (v : Variable) (t : VariableType) (v' : Variable) :
      get (types.insert v <| (types.lookup v).elim t.orUndef (·.bitor t)) v' =
        if v' = v then (types.get v').bitor t else types.get v' := by
    rw [get_insert]
    split
    case isTrue h =>
      subst h
      rw [get]
      cases types.lookup v' <;> simp [bitor, orUndef, undefType]
    case isFalse => rfl
  refine (get_foldl _ _ hs other.nodupKeys).trans ?_
  change Option.elim (other.lookup v) _ _ = _
  rw [get, lookup_mapValues, get, get]
  cases other.lookup v <;> cases types.lookup v <;> simp [bitor, orUndef, undefType]
  split <;> simp_all

theorem get_foldl_insert (aggregates : List (Variable × α)) :
    (aggregates.foldl (fun (types : VariableTypes) (v, _) => types.insert v anyType) types).get v =
      if v ∈ aggregates.map Prod.fst then anyType else types.get v := by
  induction aggregates generalizing types
  case nil => rfl
  case cons aggregate aggregates ih =>
    rw [List.foldl_cons, ih, get_insert]
    by_cases h : v = aggregate.1 <;> by_cases h' : v ∈ aggregates.map Prod.fst <;>
      simp [h, h']

theorem get_foldl_columns (t : ℕ → VariableType) {vars : List Variable} (h : vars.Nodup) (k : ℕ) :
    ((vars.zipIdx k).foldl (fun types (v, i) => types.intersectVariableWith v (t i)) types).get v =
      if v ∈ vars then (types.get v).bitand (t (k + vars.idxOf v)) else types.get v := by
  induction vars generalizing types k
  case nil => simp
  case cons w vars ih =>
    have ⟨hw, h⟩ := List.nodup_cons.mp h
    rw [List.zipIdx_cons, List.foldl_cons, ih _ h, get_intersectVariableWith]
    by_cases hv : v = w
    case pos =>
      subst hv
      simp [hw]
    case neg => simp [hv, List.idxOf_cons_ne, Ne.symm hv, Nat.add_assoc, Nat.add_comm 1]

end VariableTypes

namespace VariableTypes

-- The bindings of a tuple are of the types.
def Admits (types : VariableTypes) (C : TermContext T) (μ : InternalTuple T) : Prop :=
  ∀ v, (types.get v).admits ((μ.lookup v).map C.kind)

namespace Admits

variable {T : Type} {C : TermContext T} {types other : VariableTypes} {μ μ' μ₁ μ₂ : InternalTuple T}

theorem bind (h : types.Admits C μ) (ht : t.admits (some (C.kind x))) (hv : μ'.lookup v = some x)
    (hk : ∀ old, μ.lookup v = some old → C.kind x = C.kind old)
    (hn : ∀ v' ≠ v, μ'.lookup v' = μ.lookup v') :
    (types.intersectVariableWith v t).Admits C μ' := by
  intro v'
  rw [get_intersectVariableWith]
  split
  case isFalse hv' => rw [hn v' hv']; exact h v'
  case isTrue hv' =>
    subst hv'
    have hor : (μ'.lookup v').map C.kind = ((μ.lookup v').map C.kind).or (some (C.kind x)) := by
      cases hl : μ.lookup v'
      case none => simp [hv]
      case some old => simp [hv, hk old hl]
    rw [hor]
    refine admits_bitand (h v') ht fun k k' ho hk' => ?_
    have ⟨y, hy, ho⟩ := Option.map_eq_some_iff.mp ho
    rw [← ho, ← hk y hy, ← Option.some.inj hk']

theorem combineWith [DecidableEq T] (h₁ : types.Admits C μ₁) (h₂ : other.Admits C μ₂)
    (h : μ₁.combineWith μ₂ = some μ) : (types.intersectWith other).Admits C μ := by
  intro v
  rw [get_intersectWith, lookup_combineWith h, Option.map_or]
  refine admits_bitand (h₁ v) (h₂ v) fun k k' hk hk' => ?_
  have ⟨x, hx, hk⟩ := Option.map_eq_some_iff.mp hk
  have ⟨y, hy, hk'⟩ := Option.map_eq_some_iff.mp hk'
  have hx := le_left h v x hx
  have hy := le_right h v y hy
  simp_all

theorem mapValues_orUndef (h : types.Admits C μ) :
    (types.mapValues fun _ t => t.orUndef).Admits C μ :=
  fun v => get_mapValues_orUndef types v ▸ admits_orUndef (h v)

-- A side that may leave everything open does not matter.
theorem intersectWith_orUndef (h : types.Admits C μ) :
    (types.intersectWith <| other.mapValues fun _ t => t.orUndef).Admits C μ := by
  intro v
  rw [get_intersectWith, get_mapValues_orUndef, ← Option.or_none (o := (μ.lookup v).map C.kind)]
  exact admits_bitand (h v) rfl nofun

theorem unionWith (h : types.Admits C μ ∨ other.Admits C μ) :
    (types.unionWith other).Admits C μ := by
  intro v
  rw [get_unionWith, admits_bitor, Bool.or_eq_true]
  exact h.imp (· v) (· v)

theorem foldl_unionWith {ts : List VariableTypes}
    (h : types.Admits C μ ∨ ∃ t ∈ ts, t.Admits C μ) :
    (ts.foldl VariableTypes.unionWith types).Admits C μ := by
  induction ts generalizing types
  case nil => simpa using h
  case cons t ts ih =>
    rw [List.exists_mem_cons_iff, ← or_assoc] at h
    exact ih <| h.imp_left unionWith

end Admits

end VariableTypes

open VariableTypes

namespace Expression

mutual

-- Whether it can be seen from the operators, and from the variables without a value, that there may
-- be no value.
def mayFail (μ : InternalTuple T) : Expression → Bool
  | .variable v => (μ.lookup v).isNone
  | or _ | and _ | unary _ _ => true
  | binary op a b => op ≠ .sameTerm || a.mayFail μ || b.mayFail μ
  | .if _ then' els => then'.mayFail μ || els.mayFail μ
  | coalesce inner => mayAllFail μ inner
  | functionCall name args => !name.isTotal args
  | _ => false

def mayAllFail (μ : InternalTuple T) : List Expression → Bool
  | [] => true
  | e :: es => e.mayFail μ && mayAllFail μ es

end

variable {T : Type} [DecidableEq T] (E : SimpleEvaluator T)

mutual

-- The type of a conditional does not see that its condition may fail, and a fresh UUID is taken for
-- a literal. Only what decides the value of the expression matters.
def Inferable (μ : InternalTuple T) : Expression → Prop
  | functionCall name _ => name ≠ .uuid
  | binary .sameTerm a b =>
    E.evalExpression (binary .sameTerm a b) μ = none → a.mayFail μ ∨ b.mayFail μ
  | .if cond then' els =>
    match (E.evalExpression cond μ).bind E.effectiveBooleanValue with
    | some true => Inferable μ then'
    | some false => Inferable μ els
    | none => then'.mayFail μ ∨ els.mayFail μ
  | coalesce inner => InferableAll μ inner
  | _ => True

def InferableAll (μ : InternalTuple T) : List Expression → Prop
  | [] => True
  | e :: es => Inferable μ e ∧ (E.evalExpression e μ = none → InferableAll μ es)

end

end Expression

namespace Expression

variable {T : Type} {C : TermContext T} {E : SimpleEvaluator T} {types : VariableTypes}
  {μ : InternalTuple T}

theorem inferCoalesceType_mono (h : t.admits (some k)) :
    (inferCoalesceType types t es).admits (some k) := by
  induction es generalizing t
  case nil => exact h
  case cons e es ih =>
    rw [inferCoalesceType]
    split
    case isTrue => exact admits_of_undef (by simp [admits_bitor, h])
    case isFalse => exact ih (by simp [admits_bitor, h])

theorem admits_kinds {name : Function} (hk : k ∈ name.kinds) (h : name ≠ .uuid) :
    (inferExpressionType types (functionCall name args)).admits (some k) := by
  cases name
  case uuid => exact absurd rfl h
  case bnode =>
    cases List.mem_singleton.mp hk
    cases args <;> rfl
  all_goals fin_cases hk <;> rfl

theorem admits_functionCall {name : Function} {args : List Expression} {values : List (Option T)}
    (hl : values.length = args.length) (h : name ≠ .uuid) :
    (inferExpressionType types (functionCall name args)).admits
      ((E.call name values).map E.kind) := by
  cases hc : E.call name values
  case none =>
    have ht := mt E.call_isSome (by simp [hc] : ¬(E.call name values).isSome)
    have he : values = [] ↔ args = [] := by
      rw [← List.length_eq_zero_iff, hl, List.length_eq_zero_iff]
    cases name <;>
      simp_all [inferExpressionType, Function.isTotal, admits, bitor, undefType, anyType]
  case some x =>
    exact admits_kinds (E.kind_call hc) h

theorem admits_literalType {x : T} (h : E.kind x = .literal) :
    literalType.admits (some (E.kind x)) := by
  rw [h]
  rfl

-- Most operators give a literal unless they fail.
theorem admits_literal {o : Option T} (h : ∀ x, o = some x → E.kind x = .literal) :
    (literalType.bitor undefType).admits (o.map E.kind) := by
  cases o
  case none => rfl
  case some x => simp [admits_bitor, admits_literalType (h x rfl)]

mutual

theorem undef_of_mayFail (hm : types.Admits C μ) : (e : Expression) → e.mayFail μ →
    (inferExpressionType types e).undef
  | .variable v, h => by
    have := hm v
    rwa [Option.isNone_iff_eq_none.mp h] at this
  | or _, _ | and _, _ | unary _ _, _ => rfl
  | binary .sameTerm a b, h => by
    have h : a.mayFail μ ∨ b.mayFail μ := by simpa [mayFail] using h
    have := h.imp (undef_of_mayFail hm a) (undef_of_mayFail hm b)
    simp [inferExpressionType, this, bitor, undefType]
  | binary .equal _ _, _ | binary .greater _ _, _ | binary .greaterOrEqual _ _, _
  | binary .less _ _, _ | binary .lessOrEqual _ _, _ | binary .add _ _, _
  | binary .subtract _ _, _ | binary .multiply _ _, _ | binary .divide _ _, _ => rfl
  | .if _ then' els, h => by
    have := (Bool.or_eq_true_iff.mp h).imp (undef_of_mayFail hm then') (undef_of_mayFail hm els)
    simpa [inferExpressionType, bitor] using this
  | coalesce inner, h => undef_of_mayAllFail hm inner h rfl
  | functionCall name args, h => by
    cases name <;> simp_all [mayFail, Function.isTotal, inferExpressionType, bitor, undefType,
      anyType]

theorem undef_of_mayAllFail (hm : types.Admits C μ) : (es : List Expression) → mayAllFail μ es →
    t.undef → (inferCoalesceType types t es).undef
  | [], _, ht => ht
  | e :: es, h, ht => by
    have h := Bool.and_eq_true_iff.mp h
    have hu := undef_of_mayFail hm e h.1
    simpa [inferCoalesceType, hu] using undef_of_mayAllFail hm es h.2 (by simp [bitor, hu])

end

variable [DecidableEq T]

mutual

theorem admits_evalExpression (hm : types.Admits E.toTermContext μ) :
    (e : Expression) → e.Inferable E μ →
    (inferExpressionType types e).admits ((E.evalExpression e μ).map E.kind)
  | namedNode _, _ => by
    simp [inferExpressionType, SimpleEvaluator.evalExpression, E.kind_namedNode, admits,
      namedNodeType]
  | literal _, _ => admits_literalType E.kind_literal
  | bound _, _ | .exists _, _ => admits_literalType (E.kind_ofBool _)
  | .variable v, _ => hm v
  | functionCall name args, h =>
    admits_functionCall (by simp [SimpleEvaluator.evalExpressions_eq_map]) h
  | binary .sameTerm a b, h => by
    rw [inferExpressionType]
    cases hx : E.evalExpression (binary .sameTerm a b) μ
    case none =>
      -- One side has no value, so the type of one side leaves it open.
      have := (h hx).imp (undef_of_mayFail hm a) (undef_of_mayFail hm b)
      simp [this, admits, bitor, undefType]
    case some x =>
      rw [SimpleEvaluator.evalExpression] at hx
      obtain ⟨y, _, hx⟩ := Option.bind_eq_some_iff.mp hx
      obtain ⟨z, _, hx⟩ := Option.bind_eq_some_iff.mp hx
      have : literalType.admits (some (E.kind x)) :=
        admits_literalType <| Option.some.inj hx ▸ E.kind_ofBool _
      split
      case isTrue => simpa [admits_bitor] using .inl this
      case isFalse => exact this
  | binary .equal _ _, _ | binary .greater _ _, _ | binary .greaterOrEqual _ _, _
  | binary .less _ _, _ | binary .lessOrEqual _ _, _ | binary .add _ _, _
  | binary .subtract _ _, _ | binary .multiply _ _, _ | binary .divide _ _, _ =>
    admits_literal fun x hx => by
      simp only [SimpleEvaluator.evalExpression, Option.bind_eq_bind,
        Option.bind_eq_some_iff] at hx
      have ⟨_, _, _, _, h⟩ := hx
      exact E.kind_evalBinary h
  | or _, _ | and _, _ => admits_literal fun x hx => by
    have ⟨_, _, h⟩ := Option.map_eq_some_iff.mp hx
    exact h ▸ E.kind_ofBool _
  | unary _ _, _ => admits_literal fun x hx => by
    have ⟨_, _, h⟩ := Option.bind_eq_some_iff.mp hx
    exact E.kind_evalUnary h
  | .if cond then' els, h => by
    rw [inferExpressionType, SimpleEvaluator.evalExpression_if, admits_bitor, Bool.or_eq_true]
    rw [Inferable] at h
    cases hb : (E.evalExpression cond μ).bind E.effectiveBooleanValue <;> rw [hb] at h
    case none => exact h.imp (undef_of_mayFail hm then') (undef_of_mayFail hm els)
    case some b =>
      cases b
      case false => exact .inr (admits_evalExpression hm els h)
      case true => exact .inl (admits_evalExpression hm then' h)
  | coalesce inner, h => admits_findSome hm inner h rfl

-- The types so far leave the value open, as all expressions so far have none.
theorem admits_findSome (hm : types.Admits E.toTermContext μ) :
    (es : List Expression) → InferableAll E μ es → t.undef →
    (inferCoalesceType types t es).admits
      (((E.evalExpressions es μ).findSome? id).map E.kind)
  | [], _, ht => ht
  | e :: es, h, ht => by
    have he := admits_evalExpression hm e h.1
    rw [inferCoalesceType, SimpleEvaluator.evalExpressions, List.findSome?_cons]
    cases hx : E.evalExpression e μ
    case none =>
      rw [hx] at he
      have hu : (inferExpressionType types e).undef = true := he
      simpa [hu] using admits_findSome hm es (h.2 hx) (by simp [bitor, hu])
    case some x =>
      rw [hx] at he
      have : (t.bitor (inferExpressionType types e)).admits (some (E.kind x)) := by
        simp_all [admits_bitor]
      change VariableType.admits _ (some (E.kind x))
      split
      case isTrue => exact admits_of_undef this
      case isFalse => exact inferCoalesceType_mono this

end

end Expression

section

variable {T : Type} {E : SimpleEvaluator T} {types : VariableTypes} {μ μ' : InternalTuple T}

theorem admits_columnType (h : row ∈ bindings) (i : ℕ) :
    (columnType bindings i).admits (((row[i]?.join).bind E.encodeGroundTerm).map E.kind) := by
  cases hr : row[i]?.join
  case none => exact List.any_eq_true.mpr ⟨none, List.mem_map.mpr ⟨row, h, hr⟩, rfl⟩
  case some term =>
    have hm : some term ∈ bindings.map (·[i]?.join) := List.mem_map.mpr ⟨row, h, hr⟩
    have ⟨x, hx, hk⟩ := E.encodeGroundTerm_kind term
    rw [Option.bind_some, hx, Option.map_some, hk]
    cases term <;> exact List.any_eq_true.mpr ⟨_, hm, rfl⟩

variable [DecidableEq T]

theorem VariableTypes.Admits.putPatternValue_variable (h : types.Admits E.toTermContext μ)
    (hp : E.putPatternValue (.variable v) x μ = some μ') (ht : t.admits (some (E.kind x))) :
    (types.intersectVariableWith v t).Admits E.toTermContext μ' := by
  have hx := E.lookup_of_putPatternValue hp
  refine h.bind ht hx (fun old ho => ?_) fun v' hv => ?_
  case refine_1 => rw [← Option.some.inj <| hx.symm.trans <| E.le_of_putPatternValue hp v old ho]
  case refine_2 =>
    rw [TermContext.putPatternValue] at hp
    split at hp
    case h_1 => simp_all
    case h_2 => simp [← Option.some.inj hp, hv]

theorem NamedNodePattern.admits_addTypes (pattern : NamedNodePattern)
    (h : types.Admits E.toTermContext μ)
    (hp : E.putPatternValue (E.fromNamedNodePattern pattern) x μ = some μ')
    (hk : ∀ v, pattern = .variable v → E.kind x = .namedNode) :
    (pattern.addTypes types).Admits E.toTermContext μ' := by
  cases pattern
  case namedNode =>
    simp only [TermContext.fromNamedNodePattern, TermContext.putPatternValue,
      Option.ite_none_right_eq_some, Option.some.injEq] at hp
    exact hp.2 ▸ h
  case «variable» v =>
    refine h.putPatternValue_variable hp ?_
    rw [hk v rfl]
    rfl

theorem admits_addGroundTermPatternTypes (pattern : GroundTermPattern) (isObject : Bool)
    (h : types.Admits E.toTermContext μ)
    (hp : E.putPatternValue (E.fromGroundTermPattern pattern) x μ = some μ')
    (hk : isObject = false → ∀ v, pattern = .variable v → E.kind x ≠ .literal) :
    (addGroundTermPatternTypes types isObject pattern).Admits E.toTermContext μ' := by
  induction pattern generalizing types μ μ' x isObject
  case namedNode | literal =>
    simp only [TermContext.fromGroundTermPattern, TermContext.putPatternValue,
      Option.ite_none_right_eq_some, Option.some.injEq] at hp
    exact hp.2 ▸ h
  case «variable» v =>
    refine h.putPatternValue_variable hp ?_
    cases isObject
    case false => exact admits_subjectType (hk rfl v rfl)
    case true => exact admits_termType _
  case triple s p o hs ho =>
    simp only [TermContext.fromGroundTermPattern, TermContext.putPatternValue,
      Option.bind_eq_bind, Option.bind_eq_some_iff] at hp
    obtain ⟨⟨xs, xp, xo⟩, hd, μ₁, h₁, μ₂, h₂, h₃⟩ := hp
    obtain ⟨_, hks, hkp⟩ := E.kind_triple hd
    rw [addGroundTermPatternTypes]
    exact ho true (p.admits_addTypes (hs false h h₁ fun _ _ _ => hks) h₂ fun _ _ => hkp) h₃
      fun h => by cases h

theorem admits_addTypes_putGraphName (graphName : Option NamedNodePattern)
    (h : types.Admits E.toTermContext μ)
    (hp : E.putGraphName (graphName.map E.fromNamedNodePattern) g μ = some μ')
    (hk : ∀ v n, graphName = some (.variable v) → μ'.lookup v = some n → E.kind n = .namedNode) :
    (graphName.elim types (·.addTypes types)).Admits E.toTermContext μ' := by
  cases graphName
  case none => exact Option.some.inj hp ▸ h
  case some pattern =>
    have ⟨n, hn, hp⟩ := Option.bind_eq_some_iff.mp hp
    exact pattern.admits_addTypes h hp fun v hv =>
      hk v n (hv ▸ rfl) <| E.lookup_of_putPatternValue (hv ▸ hp)

end

namespace GraphPattern

theorem inferUnionTypes_eq_map (ps : List GraphPattern) (types : VariableTypes) :
    inferUnionTypes ps types = ps.map (inferGraphPatternTypes · types) := by
  induction ps
  case nil => rfl
  case cons ih => simp [inferUnionTypes, ih]

theorem admits_union {E : SimpleEvaluator T} (hp : p ∈ ps)
    (hμ : (inferGraphPatternTypes p types).Admits E.toTermContext μ) :
    (inferGraphPatternTypes (union ps) types).Admits E.toTermContext μ := by
  have hm : inferGraphPatternTypes p types ∈ inferUnionTypes ps types := by
    rw [inferUnionTypes_eq_map]
    exact List.mem_map_of_mem hp
  rw [inferGraphPatternTypes]
  split
  case h_1 he => simp [he] at hm
  case h_2 t ts he =>
    rw [he] at hm
    obtain hm | hm := List.mem_cons.mp hm
    case inl => exact .foldl_unionWith <| .inl (hm ▸ hμ)
    case inr => exact .foldl_unionWith <| .inr ⟨_, hm, hμ⟩

variable {T : Type} [DecidableEq T]

mutual

def Inferable : GraphPattern → SimpleEvaluator T → InternalTuple T → Prop
  -- The variable of a graph is taken for the name of a node, but a graph can have a blank node.
  | quadPattern subject predicate object graphName, E, input =>
    ∀ μ ∈ E.evalGraphPattern (quadPattern subject predicate object graphName) input,
      ∀ v n, graphName = some (.variable v) → μ.lookup v = some n → E.kind n = .namedNode
  -- A path can start at a literal if it is empty or leads backwards.
  | path subject p object graphName, E, input =>
    ∀ μ ∈ E.evalGraphPattern (path subject p object graphName) input, ∀ v n,
      (subject = .variable v → μ.lookup v = some n → E.kind n ≠ .literal) ∧
        (graphName = some (.variable v) → μ.lookup v = some n → E.kind n = .namedNode)
  | graph graphName, E, input => ∀ μ ∈ E.evalGraphPattern (graph graphName) input,
    ∀ v n, graphName = .variable v → μ.lookup v = some n → E.kind n = .namedNode
  | join left right _, E, input | leftJoin left right _ _, E, input =>
    left.Inferable E input ∧ right.Inferable E input
  -- An optional part that is run for each tuple has to keep the tuple.
  | lateral left right, E, input => left.Inferable E input ∧
    ∀ μ ∈ E.evalGraphPattern left input, right.Inferable E μ ∧
      ∀ nl nr e keys, right = leftJoin nl nr e keys → nl.isEmptySingleton →
        ∀ ν ∈ E.evalGraphPattern nr μ, μ ≤ ν
  | minus left _ _, E, input => left.Inferable E input
  | union inner, E, input => InferableAll inner E input
  -- A value that a variable has already is replaced.
  | extend inner var expression, E, input => inner.Inferable E input ∧
    ∀ μ ∈ E.evalGraphPattern inner input, expression.Inferable E μ ∧
      ∀ old new, μ.lookup var = some old → E.evalExpression expression μ = some new →
        E.kind new = E.kind old
  -- The types of what is not projected are passed to the inner pattern, but not the values.
  | project inner vars, E, input => inner.Inferable E (input.restrict vars) ∧
    ∀ μ ∈ E.evalGraphPattern inner (input.restrict vars),
      ∀ v, (input.lookup v).isSome → v ∈ vars ∧ (μ.lookup v).isSome
  | filter _ inner, E, input | distinct inner, E, input | reduced inner, E, input
  | orderBy inner _, E, input | slice inner _ _, E, input => inner.Inferable E input
  -- The inner pattern is inferred twice, as if it were evaluated once more from its solutions, on
  -- whatever data.
  | group inner vars _, E, input => vars ≠ [] → inner.Inferable E input ∧
    ∀ μ ∈ E.evalGraphPattern inner input, ∃ E' : SimpleEvaluator T,
      E'.toTermContext = E.toTermContext ∧ inner.Inferable E' μ ∧ μ ∈ E'.evalGraphPattern inner μ
  | values vars _, _, _ => vars.Nodup
  -- The service has a name, and it answers what the pattern gives on data of its own.
  | service name inner _, E, input => ∀ s answers,
    E.getPatternValue input (E.fromNamedNodePattern name) = some s →
    E.evaluateService s inner input = some answers → E.kind s = .namedNode ∧
      ∀ answer ∈ answers, ∀ μ, answer.combineWith input = some μ →
        ∃ E' : SimpleEvaluator T, E'.toTermContext = E.toTermContext ∧ inner.Inferable E' input ∧
          μ ∈ E'.evalGraphPattern inner input

def InferableAll : List GraphPattern → SimpleEvaluator T → InternalTuple T → Prop
  | [], _, _ => True
  | p :: ps, E, input => p.Inferable E input ∧ InferableAll ps E input

end

variable {E : SimpleEvaluator T} {left right inner : GraphPattern} {vars : List Variable}
  {input : InternalTuple T}

-- If the input is of some types then the solutions are of the inferred types.
def Keeps (E : SimpleEvaluator T) (p : GraphPattern) (input : InternalTuple T) : Prop :=
  ∀ types : VariableTypes, types.Admits E.toTermContext input → ∀ μ ∈ E.evalGraphPattern p input,
    (inferGraphPatternTypes p types).Admits E.toTermContext μ

theorem keeps_quadPattern (h : (quadPattern s p o g).Inferable E input) :
    (quadPattern s p o g).Keeps E input := by
  intro types hi μ hμ
  have h := h μ hμ
  rw [SimpleEvaluator.evalGraphPattern, Multiset.mem_coe] at hμ
  obtain ⟨q, hq, hμ⟩ := List.mem_filterMap.mp hμ
  simp only [Option.bind_eq_bind, Option.bind_eq_some_iff] at hμ
  obtain ⟨μ₁, h₁, μ₂, h₂, μ₃, h₃, h₄⟩ := hμ
  obtain ⟨q', hq', hs, hp, _, _⟩ := EvalDataset.exists_quad_of_mem hq
  obtain ⟨ks, kp⟩ := E.kind_quad hq'
  have a₁ := admits_addGroundTermPatternTypes s false hi h₁ fun _ _ _ => hs ▸ ks
  have a₂ := p.admits_addTypes a₁ h₂ fun _ _ => hp ▸ kp
  have a₃ := admits_addGroundTermPatternTypes o true a₂ h₃ fun h => by cases h
  exact admits_addTypes_putGraphName g a₃ h₄ h

theorem keeps_path (h : (path s p o g).Inferable E input) : (path s p o g).Keeps E input := by
  intro types hi μ hμ
  have h := h μ hμ
  rw [SimpleEvaluator.evalGraphPattern, Multiset.mem_coe] at hμ
  obtain ⟨xs, xo, xg, μ₁, μ₂, h₁, h₂, h₃⟩ := SimpleEvaluator.mem_evalPath hμ
  have a₁ := admits_addGroundTermPatternTypes s false hi h₁ fun _ v hv => by
    subst hv
    have hle := (E.le_of_putPatternValue h₂).trans (SimpleEvaluator.le_of_putGraphName h₃)
    exact (h v xs).1 rfl <| hle v xs <| E.lookup_of_putPatternValue h₁
  have a₂ := admits_addGroundTermPatternTypes o true a₁ h₂ fun h => by cases h
  exact admits_addTypes_putGraphName g a₂ h₃ fun v n => (h v n).2

theorem keeps_graph (h : (graph g).Inferable E input) : (graph g).Keeps E input := by
  intro types hi μ hμ
  have h := h μ hμ
  rw [SimpleEvaluator.evalGraphPattern, Multiset.mem_coe] at hμ
  obtain ⟨n, hp⟩ := SimpleEvaluator.mem_evalGraph hμ
  exact g.admits_addTypes hi hp fun v hv => h v n hv <| E.lookup_of_putPatternValue (hv ▸ hp)

theorem keeps_values (h : vars.Nodup) : (values vars bindings).Keeps E input := by
  intro types hi μ hμ
  rw [SimpleEvaluator.evalGraphPattern, Multiset.mem_coe] at hμ
  obtain ⟨row, hr, hμ⟩ := List.mem_filterMap.mp hμ
  intro v
  rw [combineWith_comm] at hμ
  have he : (E.encodeBinding vars row).lookup v =
      if v ∈ vars then (row[vars.idxOf v]?.join).bind E.encodeGroundTerm else none := by
    rw [SimpleEvaluator.encodeBinding, lookup_setAll_zip ∅ h]
    cases hr : row[vars.idxOf v]? <;> simp [hr]
  rw [inferGraphPatternTypes, get_foldl_columns _ _ _ h, lookup_combineWith hμ, Option.map_or, he]
  split
  case isTrue hv =>
    rw [Nat.zero_add]
    refine admits_bitand (hi v) (admits_columnType hr _) fun k k' hk hk' => ?_
    obtain ⟨x, hx, hk⟩ := Option.map_eq_some_iff.mp hk
    obtain ⟨y, hy, hk'⟩ := Option.map_eq_some_iff.mp hk'
    have hx := le_left hμ v x hx
    have hy := le_right hμ v y (by simp [he, hv, hy])
    simp_all
  case isFalse => simpa using hi v

theorem keeps_join (hl : left.Keeps E input) (hr : right.Keeps E input) :
    (join left right keys).Keeps E input := by
  intro types hi μ hμ
  rw [SimpleEvaluator.evalGraphPattern] at hμ
  obtain ⟨x, hx, y, hy, hμ⟩ := SimpleEvaluator.mem_hashJoin hμ
  exact (hl types hi x hx).combineWith (hr types hi y hy) hμ

theorem keeps_leftJoin (hl : left.Keeps E input) (hr : right.Keeps E input) :
    (leftJoin left right e keys).Keeps E input := by
  intro types hi μ hμ
  rw [SimpleEvaluator.evalGraphPattern] at hμ
  rw [inferGraphPatternTypes]
  obtain hx | ⟨x, hx, y, hy, hμ⟩ := SimpleEvaluator.mem_hashLeftJoin hμ
  case inl => exact (hl types hi μ hx).intersectWith_orUndef
  case inr => exact (hl types hi x hx).combineWith (hr types hi y hy).mapValues_orUndef hμ

theorem keeps_extend (h : inner.Keeps E input)
    (he : ∀ μ ∈ E.evalGraphPattern inner input, e.Inferable E μ ∧
      ∀ old new, μ.lookup v = some old → E.evalExpression e μ = some new →
        E.kind new = E.kind old) : (extend inner v e).Keeps E input := by
  intro types hi μ hμ
  rw [SimpleEvaluator.evalGraphPattern] at hμ
  obtain ⟨x, hx, hμ⟩ := Multiset.mem_map.mp hμ
  obtain ⟨he, hv⟩ := he x hx
  have hx := h types hi x hx
  have ht := Expression.admits_evalExpression hx e he
  rw [inferGraphPatternTypes]
  subst hμ
  cases hy : E.evalExpression e x <;> rw [hy] at ht
  case none =>
    intro v'
    rw [get_intersectVariableWith, Option.elim_none]
    split
    case isTrue =>
      rw [← Option.or_none (o := (x.lookup v').map E.kind)]
      refine admits_bitand (hx v') ht ?_
      rintro _ _ _ ⟨⟩
    case isFalse => exact hx v'
  case some y =>
    exact hx.bind ht (by simp) (fun old ho => hv old y ho hy) fun v' hv' => by simp [hv']

theorem keeps_project (h : inner.Keeps E (input.restrict vars))
    (hv : ∀ μ ∈ E.evalGraphPattern inner (input.restrict vars), ∀ v, (input.lookup v).isSome →
      v ∈ vars ∧ (μ.lookup v).isSome) : (project inner vars).Keeps E input := by
  intro types hi μ hμ
  rw [SimpleEvaluator.evalGraphPattern, SimpleEvaluator.evalProject] at hμ
  obtain ⟨x, hx, hμ⟩ := (Multiset.mem_filterMap _ _).mp hμ
  have hv := hv x hx
  have hr : input.restrict vars = input := restrict_eq_self fun v hm => by
    by_contra hn
    exact hm (hv v <| Option.isSome_iff_ne_none.mpr hn).1
  have hx := h types (hr.symm ▸ hi) x hx
  intro v
  rw [inferGraphPatternTypes, get_filterVariables]
  by_cases hm : v ∈ vars
  case pos =>
    -- What the input has is not replaced, and not left open either.
    have : μ.lookup v = x.lookup v := by
      have hle := le_right hμ v
      rw [lookup_restrict, if_pos hm] at hle
      cases hl : x.lookup v
      case none =>
        rw [lookup_combineWith hμ, lookup_restrict, if_pos hm, hl, Option.or_none]
        by_contra hn
        simpa [hl] using (hv v <| Option.isSome_iff_ne_none.mpr hn).2
      case some y => exact hle y hl
    simpa [hm, this] using hx v
  case neg =>
    have : μ.lookup v = none := by
      rw [lookup_combineWith hμ, lookup_restrict, if_neg hm, ← hr, lookup_restrict, if_neg hm]
      rfl
    simp [hm, this, admits_undefType]

theorem keeps_group (h : vars ≠ [] → inner.Keeps E input ∧
      ∀ μ ∈ E.evalGraphPattern inner input, ∃ E' : SimpleEvaluator T,
        E'.toTermContext = E.toTermContext ∧ inner.Keeps E' μ ∧ μ ∈ E'.evalGraphPattern inner μ) :
    (group inner vars aggregates).Keeps E input := by
  intro types hi μ hμ v
  rw [SimpleEvaluator.evalGraphPattern] at hμ
  obtain ⟨k, hk, hμ⟩ := Multiset.mem_map.mp hμ
  subst hμ
  rw [inferGraphPatternTypes, get_foldl_insert]
  split
  case isTrue => exact admits_anyType _
  case isFalse hn =>
    rw [lookup_setAll_of_notMem _ (by rwa [SimpleEvaluator.evalAggregates_map_fst]),
      get_filterVariables]
    by_cases hm : v ∈ vars
    case pos =>
      -- A group that is grouped by a variable has a solution.
      have hvars : vars.isEmpty = false := List.isEmpty_eq_false_iff_exists_mem.mpr ⟨v, hm⟩
      simp only [hvars, Bool.false_eq_true, if_false, Multiset.mem_dedup, Multiset.mem_map] at hk
      obtain ⟨x, hx, hk⟩ := hk
      subst hk
      obtain ⟨h, hi'⟩ := h <| List.ne_nil_of_mem hm
      obtain ⟨E', hE, h', hx'⟩ := hi' x hx
      rw [setAll_zip_map, lookup_restrict, if_pos hm]
      have ht := hE ▸ h' _ (hE ▸ h types hi x hx) x hx'
      simpa [hm] using ht v
    case neg =>
      have hz : v ∉ (vars.zip k).map Prod.fst := by
        rintro hz
        obtain ⟨entry, he, hz⟩ := List.mem_map.mp hz
        exact hm <| hz ▸ (List.of_mem_zip he).1
      simp [lookup_setAll_of_notMem _ hz, hm, admits_undefType]

theorem keeps_lateral (hl : left.Keeps E input)
    (hr : ∀ μ ∈ E.evalGraphPattern left input, right.Keeps E μ)
    (hn : ∀ nl nr e keys, right ≠ leftJoin nl nr e keys) : (lateral left right).Keeps E input := by
  intro types hi μ hμ
  rw [SimpleEvaluator.evalGraphPattern_lateral hn] at hμ
  have ⟨x, hx, hμ⟩ := Multiset.mem_bind.mp hμ
  exact hr x hx _ (hl types hi x hx) μ hμ

theorem keeps_forLoop (hl : left.Keeps E input)
    (hr : ∀ μ ∈ E.evalGraphPattern left input, nl.Keeps E μ ∧ nr.Keeps E μ ∧
      (nl.isEmptySingleton → ∀ ν ∈ E.evalGraphPattern nr μ, μ ≤ ν)) :
    (lateral left (leftJoin nl nr e keys)).Keeps E input := by
  intro types hi μ hμ
  rw [SimpleEvaluator.evalGraphPattern] at hμ
  obtain ⟨x, hx, hμ⟩ := Multiset.mem_bind.mp hμ
  obtain ⟨hnl, hnr, hle⟩ := hr x hx
  have hx := hl types hi x hx
  split at hμ
  case isFalse =>
    have hj : (leftJoin nl nr e keys).Keeps E x := keeps_leftJoin hnl hnr
    exact hj _ hx μ (by rwa [SimpleEvaluator.evalGraphPattern])
  case isTrue hs =>
    have hx' := hnl _ hx x (by simp [SimpleEvaluator.evalGraphPattern_of_isEmptySingleton hs])
    rw [inferGraphPatternTypes, inferGraphPatternTypes]
    obtain hμ | hμ := SimpleEvaluator.mem_orElse hμ
    case inl => exact hμ ▸ hx'.intersectWith_orUndef
    case inr =>
      have hμ := Multiset.mem_of_mem_filter hμ
      exact hx'.combineWith (hnr _ hx μ hμ).mapValues_orUndef (combineWith_of_le (hle hs μ hμ))

theorem keeps_union (h : ∀ p ∈ ps, p.Keeps E input) : (union ps).Keeps E input := by
  intro types hi μ hμ
  rw [SimpleEvaluator.evalGraphPattern] at hμ
  obtain ⟨p, hp, hμ⟩ := SimpleEvaluator.mem_evalUnion.mp hμ
  exact admits_union hp (h p hp types hi μ hμ)

theorem keeps_service (h : ∀ s answers,
      E.getPatternValue input (E.fromNamedNodePattern name) = some s →
      E.evaluateService s inner input = some answers → E.kind s = .namedNode ∧
        ∀ answer ∈ answers, ∀ μ, answer.combineWith input = some μ →
          ∃ E' : SimpleEvaluator T, E'.toTermContext = E.toTermContext ∧ inner.Keeps E' input ∧
            μ ∈ E'.evalGraphPattern inner input) :
    (service name inner silent).Keeps E input := by
  intro types hi μ hμ
  rw [SimpleEvaluator.evalGraphPattern] at hμ
  rw [inferGraphPatternTypes]
  split at hμ
  case h_1 answers ha =>
    obtain ⟨s, hs, ha⟩ := Option.bind_eq_some_iff.mp ha
    obtain ⟨answer, hm, hμ⟩ := (Multiset.mem_filterMap _ _).mp hμ
    obtain ⟨hk, h⟩ := h s answers hs ha
    obtain ⟨E', hE, h, hμ'⟩ := h answer hm μ hμ
    have hx := hE ▸ h types (hE ▸ hi) μ hμ'
    cases silent
    case true => exact .unionWith (.inl hx)
    case false =>
      refine name.admits_addTypes hx (x := s) ?_ fun _ _ => hk
      exact E.putPatternValue_of_getPatternValue (E.getPatternValue_mono (le_right hμ) hs)
  case h_2 =>
    split at hμ
    case isTrue hs =>
      rw [hs, Multiset.mem_singleton.mp hμ]
      exact .unionWith (.inr hi)
    case isFalse => cases Multiset.notMem_zero _ hμ

mutual

theorem keeps : (p : GraphPattern) → {E : SimpleEvaluator T} → {input : InternalTuple T} →
    p.Inferable E input → p.Keeps E input
  | quadPattern .., _, _, h => keeps_quadPattern h
  | path .., _, _, h => keeps_path h
  | graph _, _, _, h => keeps_graph h
  | values .., _, _, h => keeps_values h
  | join left right _, _, _, h => keeps_join (keeps left h.1) (keeps right h.2)
  | leftJoin left right _ _, _, _, h => keeps_leftJoin (keeps left h.1) (keeps right h.2)
  | lateral left right, _, _, h => by
    have hl := keeps left h.1
    cases right
    case leftJoin nl nr e keys =>
      refine keeps_forLoop hl fun μ hμ => ?_
      have ⟨hr, hle⟩ := h.2 μ hμ
      exact ⟨keeps nl hr.1, keeps nr hr.2, hle nl nr e keys rfl⟩
    all_goals exact keeps_lateral hl (fun μ hμ => keeps _ (h.2 μ hμ).1) nofun
  | extend inner _ _, _, _, h => keeps_extend (keeps inner h.1) h.2
  | project inner _, _, _, h => keeps_project (keeps inner h.1) h.2
  | group inner _ _, _, _, h => keeps_group fun hv =>
    ⟨keeps inner (h hv).1, fun μ hμ =>
      have ⟨E', hE, hi, hμ⟩ := (h hv).2 μ hμ
      ⟨E', hE, keeps inner hi, hμ⟩⟩
  | minus left _ _, _, _, h => fun types hi μ hμ =>
    keeps left h types hi μ <| Multiset.mem_of_mem_filter hμ
  | filter _ inner, _, _, h => fun types hi μ hμ =>
    keeps inner h types hi μ <| Multiset.mem_of_mem_filter hμ
  | distinct inner, _, _, h => fun types hi μ hμ =>
    keeps inner h types hi μ <| Multiset.mem_dedup.mp hμ
  | reduced inner, _, _, h => fun types hi μ hμ =>
    keeps inner h types hi μ <| SimpleEvaluator.mem_of_mem_arrange <|
      (List.destutter_sublist _ _).subset hμ
  | slice inner _ _, _, _, h => fun types hi μ hμ =>
    keeps inner h types hi μ <| SimpleEvaluator.mem_of_mem_arrange <|
      SimpleEvaluator.mem_of_mem_evalSlice hμ
  | orderBy inner _, _, _, h => keeps inner h
  | union inner, _, _, h => keeps_union (keepsAll inner h)
  | service _ inner _, _, _, h => keeps_service fun s answers hs ha =>
    ⟨(h s answers hs ha).1, fun answer hm μ hμ =>
      have ⟨E', hE, hi, hμ⟩ := (h s answers hs ha).2 answer hm μ hμ
      ⟨E', hE, keeps inner hi, hμ⟩⟩

theorem keepsAll : (ps : List GraphPattern) → {E : SimpleEvaluator T} → {input : InternalTuple T} →
    InferableAll ps E input → ∀ p ∈ ps, p.Keeps E input
  | [], _, _, _ => nofun
  | p :: ps, _, _, h => List.forall_mem_cons.mpr ⟨keeps p h.1, keepsAll ps h.2⟩

end

end GraphPattern

-- Without data there is still the solution that binds nothing.
noncomputable def SimpleEvaluator.noData : SimpleEvaluator Term :=
  .rdf ⟨[], none, none⟩ [] nofun

-- A binding that depends on a variable which has no value.
def conditionalBinding : GraphPattern :=
  .extend .emptySingleton "y" (.if (.variable "x") (.ofBool true) (.ofBool false))

-- Two nodes with their labels, of which one is blank.
noncomputable def SimpleEvaluator.labels : SimpleEvaluator Term :=
  .rdf ⟨[⟨.namedNode "a", .namedNode "label", .literal (.string "A"), none⟩,
    ⟨.blankNode (.named "b"), .namedNode "label", .literal (.string "B"), none⟩], none, none⟩ []
    (by simp [TermContext.rdf])

def labelPattern : GraphPattern :=
  .quadPattern (.variable "x") (.namedNode "label") (.variable "y") none

-- The condition of the first binding fails, and that of the second does not.
def labelBindings : GraphPattern :=
  .extend (.extend labelPattern "z" (.if (.variable "w") (.variable "v") (.variable "y")))
    "u" (.if (.bound "w") (.variable "x") (.literal (.string "")))

def labelInput : InternalTuple Term :=
  (∅ : InternalTuple Term).insert "w" (.namedNode "w")

def labelTypes : VariableTypes :=
  (∅ : VariableTypes).insert "w" namedNodeType

def labelSolution (node label : Term) : InternalTuple Term :=
  (labelInput.insert "x" node).insert "y" label

theorem evalGraphPattern_labels :
    SimpleEvaluator.labels.evalGraphPattern labelPattern labelInput =
      ([labelSolution (.namedNode "a") (.literal (.string "A")),
        labelSolution (.blankNode (.named "b")) (.literal (.string "B"))] :
          List (InternalTuple Term)) := by
  rw [labelPattern, SimpleEvaluator.evalGraphPattern]
  rfl

theorem inferable_labels : labelBindings.Inferable SimpleEvaluator.labels labelInput := by
  refine ⟨⟨?_, fun μ hμ => ?_⟩, fun μ hμ => ?_⟩
  case refine_1 =>
    rintro _ _ _ _ ⟨⟩
  case refine_2 =>
    rw [evalGraphPattern_labels] at hμ
    obtain h | h := List.mem_pair.mp hμ
    all_goals
      subst h
      refine ⟨.inl rfl, ?_⟩
      rintro _ _ ⟨⟩
  case refine_3 =>
    rw [SimpleEvaluator.evalGraphPattern, evalGraphPattern_labels] at hμ
    obtain h | h := List.mem_pair.mp hμ
    all_goals
      subst h
      refine ⟨trivial, ?_⟩
      rintro _ _ ⟨⟩

theorem admits_labelInput :
    labelTypes.Admits SimpleEvaluator.labels.toTermContext labelInput := by
  intro v
  rw [labelTypes, get_insert, labelInput, lookup_insert_eq]
  split <;> simp [admits_undefType]
  rfl

end Sparopt
