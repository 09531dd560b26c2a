import OxigraphCloud.Sparql.PropertyPath

-- What the evaluators of property paths report.
open Filter Relation

theorem List.sum_map_ite_eq_mul [DecidableEq α] (l : List α) (n : α) (c : ℕ) :
    (l.map fun m => if m = n then c else 0).sum = l.count n * c := by
  induction l
  case nil => simp
  case cons m l ih =>
    rw [List.map_cons, List.sum_cons, ih, List.count_cons]
    split <;> simp_all [Nat.add_mul, Nat.add_comm]

theorem Relation.TransGen.ends {α : Type u} {s e : α} {R : α → α → Prop} {P : α → Prop}
    (hr : ∀ {s e}, R s e → P s ∧ P e)
    (h : TransGen R s e) : P s ∧ P e := by
  have ⟨_, hs, _⟩ := TransGen.head'_iff.mp h
  have ⟨_, _, he⟩ := TransGen.tail'_iff.mp h
  exact ⟨hr hs |>.left, hr he |>.right⟩

-- Steps that start in a set, and the identity on this set.
theorem eq_or_transGen_iff {α : Type u} {s e : α} {R : α → α → Prop} {P : α → Prop}
    (hr : ∀ s e, R s e → P s) : s = e ∧ P s ∨ TransGen R s e ↔ P s ∧ ReflTransGen R s e := by
  rw [reflTransGen_iff_eq_or_transGen, and_or_left, and_comm, eq_comm (a := e)]
  refine or_congr .rfl (and_iff_right_of_imp fun h => ?_).symm
  have ⟨_, hs, _⟩ := TransGen.head'_iff.mp h
  exact hr _ _ hs

namespace InternalQuad

variable {T : Type} [DecidableEq T]

def Fits (s p o : Option T) (q : InternalQuad T) : Bool :=
  s.all (· == q.subject) && p.all (· == q.predicate) && o.all (· == q.object)

end InternalQuad

namespace EvalDataset

variable {T : Type} [DecidableEq T] (d : EvalDataset T)

-- The quads of a graph as the dataset of the query has it.
def graph (g : Option T) : List (InternalQuad T) :=
  d.internalQuadsForPattern none none none (some g)

-- The quads of the named graphs.
def namedQuads : List (InternalQuad T) :=
  d.internalQuadsForPattern none none none none

-- How often a named graph is listed.
def copies (n : T) : ℕ :=
  d.specification.named.elim 1 (·.count n)

def nodes : Finset T :=
  (d.quads.flatMap fun q => [q.subject, q.object]).toFinset

def Node (g : Option T) (t : T) : Prop :=
  ∃ q ∈ d.graph g, q.subject = t ∨ q.object = t

def links (g : Option T) (allowed : T → Bool) (s e : T) : ℕ :=
  (d.graph g).countP fun q => q.subject == s && allowed q.predicate && q.object == e

-- The relation that a path stands for in a graph.
def Denotes (g : Option T) : PropertyPath T → T → T → Prop
  | .path p, s, e => ∃ q ∈ d.graph g, q.subject = s ∧ q.predicate = p ∧ q.object = e
  | .reverse p, s, e => Denotes g p e s
  | .sequence a b, s, e => ∃ m, Denotes g a s m ∧ Denotes g b m e
  | .alternative a b, s, e => Denotes g a s e ∨ Denotes g b s e
  | .zeroOrMore p, s, e => s = e ∧ d.Node g s ∨ TransGen (Denotes g p) s e
  | .oneOrMore p, s, e => TransGen (Denotes g p) s e
  | .zeroOrOne p, s, e => s = e ∧ d.Node g s ∨ Denotes g p s e
  | .negatedPropertySet ps, s, e =>
    ∃ q ∈ d.graph g, q.subject = s ∧ q.predicate ∉ ps ∧ q.object = e

-- The number of ways to go along a path. Repetitions only count for single steps and sequences.
noncomputable def ways (g : Option T) : PropertyPath T → T → T → ℕ
  | .path p, s, e => d.links g (· == p) s e
  | .reverse p, s, e => ways g p e s
  | .sequence a b, s, e => ∑ m ∈ d.nodes, ways g a s m * ways g b m e
  | .alternative a b, s, e => once (d.Denotes g (.alternative a b) s e)
  | .zeroOrMore p, s, e => once (d.Denotes g (.zeroOrMore p) s e)
  | .oneOrMore p, s, e => once (d.Denotes g (.oneOrMore p) s e)
  | .zeroOrOne p, s, e => once (d.Denotes g (.zeroOrOne p) s e)
  | .negatedPropertySet ps, s, e => d.links g (· ∉ ps) s e

variable {d}

theorem underlyingInternalQuadsForPattern_eq_filter :
    d.underlyingInternalQuadsForPattern s p o g =
      (d.underlyingInternalQuadsForPattern none none none g).filter (·.Fits s p o) := by
  unfold underlyingInternalQuadsForPattern
  rw [List.filter_filter]
  congr! 2

theorem internalQuadsForPattern_eq_filter :
    d.internalQuadsForPattern s p o g =
      (d.internalQuadsForPattern none none none g).filter (·.Fits s p o) := by
  have hf : (·.Fits s p o) ∘ ({ · with graphName := none } : InternalQuad T → InternalQuad T) =
      (·.Fits s p o) := rfl
  unfold internalQuadsForPattern
  simp only [underlyingInternalQuadsForPattern_eq_filter (s := s) (p := p) (o := o)]
  split
  case h_1 => split <;> rfl
  case h_2 =>
    split
    case h_1 => rw [List.filter_map, hf, List.filter_flatMap]
    case h_2 => rw [List.filter_map, hf]
  case h_3 =>
    split
    case h_1 => rw [List.filter_flatMap]
    case h_2 => rw [List.filter_comm]

theorem graph_some : d.graph (some n) =
    if 0 < d.copies n then d.quads.filter (some n == ·.graphName) else [] := by
  unfold graph internalQuadsForPattern underlyingInternalQuadsForPattern copies
  cases d.specification.named <;> simp

theorem countP_namedQuads (P : InternalQuad T → Bool) :
    d.namedQuads.countP (fun q => P q && some n == q.graphName) =
      d.copies n * (d.graph (some n)).countP P := by
  rw [graph_some]
  unfold namedQuads internalQuadsForPattern underlyingInternalQuadsForPattern copies
  cases d.specification.named
  case none =>
    simp only [Option.all_none, Bool.and_true, List.filter_true, Option.elim_none, zero_lt_one,
      ↓reduceIte, one_mul, List.countP_filter]
    refine List.countP_congr fun q _ => ?_
    rcases q with ⟨s, p, o, _ | g⟩ <;> simp
  case some l =>
    -- The quads of the graph, once for each time that the list has it.
    have hm (m : T) : (d.quads.filter (some m == ·.graphName)).countP
        (fun q => P q && some n == q.graphName) =
        if m = n then (d.quads.filter (some n == ·.graphName)).countP P else 0 := by
      split
      case isTrue h =>
        subst h
        refine List.countP_congr fun q hq => ?_
        simp [(List.mem_filter.mp hq).right]
      case isFalse h =>
        refine List.countP_eq_zero.mpr fun q hq => ?_
        have := (List.mem_filter.mp hq).right
        grind
    simp only [Option.all_none, Bool.true_and, Option.all_some, Option.elim_some,
      List.countP_flatMap, Function.comp_def, hm, List.sum_map_ite_eq_mul]
    rcases Nat.eq_zero_or_pos (l.count n) with h | h <;> simp [h]

theorem mem_namedQuads : q ∈ d.namedQuads ↔ ∃ n, q.graphName = some n ∧ q ∈ d.graph (some n) := by
  simp only [graph_some]
  unfold namedQuads internalQuadsForPattern underlyingInternalQuadsForPattern copies
  cases d.specification.named
  case none =>
    simp only [List.mem_filter, Option.all_none, Bool.and_true, List.filter_true,
      Option.elim_none, zero_lt_one, ↓reduceIte, beq_iff_eq, Option.isSome_iff_exists]
    grind
  case some l =>
    simp only [List.mem_flatMap, List.mem_filter, Option.all_none, Option.all_some, Bool.true_and,
      beq_iff_eq, Option.elim_some, List.count_pos_iff]
    grind

theorem graph_subset (h : q ∈ d.graph g) :
    ∃ q' ∈ d.quads, q'.subject = q.subject ∧ q'.object = q.object := by
  unfold graph internalQuadsForPattern underlyingInternalQuadsForPattern at h
  grind

theorem mem_nodes_of_mem_graph (h : q ∈ d.graph g) : q.subject ∈ d.nodes ∧ q.object ∈ d.nodes := by
  have ⟨q', hq, hs, ho⟩ := graph_subset h
  unfold nodes
  constructor
  case left => exact List.mem_toFinset.mpr <| List.mem_flatMap.mpr ⟨q', hq, by simp [hs]⟩
  case right => exact List.mem_toFinset.mpr <| List.mem_flatMap.mpr ⟨q', hq, by simp [ho]⟩

theorem Node.mem_nodes (h : d.Node g t) : t ∈ d.nodes := by
  have ⟨q, hq, ht⟩ := h
  have ⟨hs, ho⟩ := mem_nodes_of_mem_graph hq
  rcases ht with rfl | rfl <;> assumption

-- A path leads from a node of the graph to a node of the graph.
theorem Denotes.node (h : d.Denotes g path s e) : d.Node g s ∧ d.Node g e := by
  induction path generalizing s e
  case path | negatedPropertySet =>
    have ⟨q, hq, hs, _, ho⟩ := h
    exact ⟨⟨q, hq, .inl hs⟩, ⟨q, hq, .inr ho⟩⟩
  case reverse ih => exact (ih h).symm
  case sequence iha ihb =>
    have ⟨_, ha, hb⟩ := h
    exact ⟨iha ha |>.left, ihb hb |>.right⟩
  case alternative iha ihb => exact h.elim iha ihb
  case zeroOrMore ih =>
    rcases h with ⟨rfl, hn⟩ | h
    case inl => exact ⟨hn, hn⟩
    case inr => exact TransGen.ends ih h
  case oneOrMore ih => exact TransGen.ends ih h
  case zeroOrOne ih =>
    rcases h with ⟨rfl, hn⟩ | h
    case inl => exact ⟨hn, hn⟩
    case inr => exact ih h

theorem denotes_zeroOrMore_iff :
    d.Denotes g (.zeroOrMore p) s e ↔ d.Node g s ∧ ReflTransGen (d.Denotes g p) s e :=
  eq_or_transGen_iff fun _ _ h => h.node.left

theorem links_pos_iff : 0 < d.links g allowed s e ↔
    ∃ q ∈ d.graph g, q.subject = s ∧ allowed q.predicate ∧ q.object = e := by
  simp [links, List.countP_pos_iff, and_assoc]

theorem ways_pos_iff : 0 < d.ways g path s e ↔ d.Denotes g path s e := by
  induction path generalizing s e <;> unfold ways
  case path => simp [links_pos_iff, Denotes]
  case negatedPropertySet => simp [links_pos_iff, Denotes]
  case reverse ih => exact ih
  case sequence iha ihb =>
    simp only [Finset.sum_pos_iff, CanonicallyOrderedAdd.mul_pos, iha, ihb, Denotes]
    exact exists_congr fun m => and_iff_right_of_imp fun h => h.left.node.right.mem_nodes
  all_goals exact once_pos_iff

theorem Node.copies_pos (h : d.Node (some n) t) : 0 < d.copies n := by
  have ⟨q, hq, _⟩ := h
  by_contra hc
  simp [graph_some, hc] at hq

-- Links in the named graphs, with the repetitions of a graph that is listed more than once.
def namedLinks (d : EvalDataset T) (allowed : T → Bool) (s e : T) (g : Option T) : ℕ :=
  g.elim 0 fun n => d.copies n * d.links (some n) allowed s e

section

variable [DecidableEq α] {k : InternalQuad T → Option α}

theorem count_filterMap (a : α) :
    ((d.internalQuadsForPattern s p o g).filterMap k).count a =
      (d.internalQuadsForPattern none none none g).countP
        fun q => k q == some a && q.Fits s p o := by
  rw [internalQuadsForPattern_eq_filter, List.count_filterMap, List.countP_filter]

theorem reports_links (allowed : T → Bool) {s' e' : α → T}
    (hk : ∀ a q, (k q == some a && q.Fits s p o) =
      (q.subject == s' a && allowed q.predicate && q.object == e' a)) :
    Reports (fun _ => some ((d.internalQuadsForPattern s p o (some g)).filterMap k))
      fun a => d.links g allowed (s' a) (e' a) := by
  refine (Reports.const _).congr fun a => ?_
  rw [count_filterMap, links]
  exact congrArg (List.countP · _) <| funext <| hk a

theorem reports_namedLinks (allowed : T → Bool) {s' e' : α → T} {g' : α → Option T}
    (hk : ∀ a q, (k q == some a && q.Fits s p o) =
      (q.subject == s' a && allowed q.predicate && q.object == e' a && g' a == q.graphName)) :
    Reports (fun _ => some ((d.internalQuadsForPattern s p o none).filterMap k))
      fun a => d.namedLinks allowed (s' a) (e' a) (g' a) := by
  refine (Reports.const _).congr fun a => ?_
  rw [count_filterMap, namedLinks, funext <| hk a]
  cases g' a
  case none =>
    refine List.countP_eq_zero.mpr fun q hq => ?_
    have ⟨n, hn, _⟩ := mem_namedQuads.mp hq
    simp [hn]
  case some n => exact countP_namedQuads _

end

end EvalDataset

namespace PathEvaluator

open EvalDataset (ways_pos_iff denotes_zeroOrMore_iff)

def untagged : T ≃ Unit × T :=
  (Equiv.punitProd T).symm

@[simp] theorem untagged_symm_apply (x : Unit × T) : untagged.symm x = x.2 :=
  rfl

variable {T : Type} [DecidableEq T] {d : EvalDataset T} {g : Option T}

theorem isSubjectOrObjectInGraph_iff : isSubjectOrObjectInGraph d t g ↔ d.Node g t := by
  unfold isSubjectOrObjectInGraph EvalDataset.Node EvalDataset.graph
  rw [EvalDataset.internalQuadsForPattern_eq_filter (s := some t),
    EvalDataset.internalQuadsForPattern_eq_filter (o := some t)]
  simp only [InternalQuad.Fits]
  grind

-- Steps of the evaluation from one end, for either direction.
section

variable {A B : T → T → ℕ} {x y : ℕ → T → Option (List T)} (hx : ∀ s, Reports (x · s) (A s))
  (hy : ∀ s, Reports (y · s) (B s)) (ha : ∀ s e, 0 < A s e → d.Node g s ∧ d.Node g e)
include hx

include hy ha in
theorem reports_sequence (s : T) :
    Reports (fun n => do (← x n s).flatMapM (y n)) fun e => ∑ m ∈ d.nodes, A s m * B m e := by
  refine (hx s).flatMapM untagged untagged (fun _ => hy) ?_ ?_
  case refine_1 => exact fun n _ m => by simp
  case refine_2 => exact fun _ m hm => ha s m (Nat.pos_of_ne_zero hm) |>.right.mem_nodes

include ha in
theorem reports_closure {start : ℕ → Option (List T)} (hs : Reports start times) :
    Reports (fun n => do transitiveClosure n (← start n) (x n))
      fun e => once <| Worklist.Reached (0 < A · ·) (0 < times ·) e := by
  refine hs.closure (U := d.nodes) untagged (fun _ => hx) ?_ ?_
  case refine_1 => exact fun n _ m => by simp
  case refine_2 => exact fun _ m e he => ha m e he |>.right.mem_nodes

include ha in
theorem reports_zeroOrMore (s : T) :
    Reports (fun n => runIfTermIsAGraphNode d s g <| transitiveClosure n [s] (x n))
      fun e => once (s = e ∧ d.Node g s ∨ TransGen (0 < A · ·) s e) := by
  refine (reports_closure hx ha (.const [s]) |>.guard <| isSubjectOrObjectInGraph d s g).congr ?_
  intro e
  rw [eq_or_transGen_iff fun s e h => (ha s e h).left, ← isSubjectOrObjectInGraph_iff]
  split <;> simp [*, Worklist.Reached]

include ha in
theorem reports_oneOrMore (s : T) :
    Reports (fun n => do transitiveClosure n (← x n s) (x n))
      fun e => once (TransGen (0 < A · ·) s e) := by
  refine (reports_closure hx ha (hx s)).congr fun e => once_congr ?_
  rw [TransGen.head'_iff]
  rfl

include ha in
theorem reports_zeroOrOne (s : T) :
    Reports (fun n => runIfTermIsAGraphNode d s g do
        some <| hashDeduplicate <| s :: (← x n s))
      fun e => once (s = e ∧ d.Node g s ∨ 0 < A s e) := by
  refine ((Reports.const [s]).eraseDups_append (hx s) |>.guard <|
    isSubjectOrObjectInGraph d s g).congr fun e => ?_
  split
  case isTrue h => simp [isSubjectOrObjectInGraph_iff.mp h, eq_comm]
  case isFalse h =>
    have hn := isSubjectOrObjectInGraph_iff.not.mp h
    refine (once_of_not ?_).symm
    rintro (⟨_, h⟩ | h)
    case inl => exact hn h
    case inr => exact hn (ha _ _ h).left

end

theorem node_of_ways_pos (h : 0 < d.ways g path s e) : d.Node g s ∧ d.Node g e :=
  ways_pos_iff.mp h |>.node

theorem evalFromInGraph_evalToInGraph (path : PropertyPath T) :
    (∀ s, Reports (evalFromInGraph d · path s g) (d.ways g path s)) ∧
      ∀ e, Reports (evalToInGraph d · path e g) (d.ways g path · e) := by
  have hn {path} s e (h : 0 < d.ways g path s e) := node_of_ways_pos h
  have hn' {path} s e (h : 0 < d.ways g path e s) := (node_of_ways_pos h).symm
  have hpos path : (fun s e => 0 < d.ways g path s e) = d.Denotes g path :=
    funext₂ fun _ _ => propext ways_pos_iff
  have hpos' path : (fun s e => 0 < d.ways g path e s) = Function.swap (d.Denotes g path) :=
    funext₂ fun _ _ => propext ways_pos_iff
  induction path
  case path p =>
    constructor <;> intro t <;> simp only [evalFromInGraph, evalToInGraph, EvalDataset.ways]
    all_goals
      simp only [← List.filterMap_eq_map]
      refine EvalDataset.reports_links _ fun a q => ?_
      simp [InternalQuad.Fits]
      grind
  case reverse ih => exact ih.symm
  case sequence a b iha ihb =>
    constructor <;> intro t
    case left => exact reports_sequence iha.left ihb.left hn t
    case right =>
      refine (reports_sequence ihb.right iha.right hn' t).congr fun s => ?_
      exact Finset.sum_congr rfl fun m _ => Nat.mul_comm ..
  case alternative a b iha ihb =>
    constructor <;> intro t
    case left =>
      exact (iha.left t).eraseDups_append (ihb.left t) |>.congr fun e =>
        once_congr <| or_congr ways_pos_iff ways_pos_iff
    case right =>
      exact (iha.right t).eraseDups_append (ihb.right t) |>.congr fun e =>
        once_congr <| or_congr ways_pos_iff ways_pos_iff
  case zeroOrMore p ih =>
    constructor <;> intro t
    case left =>
      refine (reports_zeroOrMore ih.left hn t).congr fun e => once_congr <| or_congr .rfl ?_
      rw [hpos p]
    case right =>
      refine (reports_zeroOrMore ih.right hn' t).congr fun s => once_congr <| or_congr ?_ ?_
      case refine_1 => grind
      case refine_2 => rw [hpos' p, transGen_swap]
  case oneOrMore p ih =>
    constructor <;> intro t
    case left =>
      refine (reports_oneOrMore ih.left hn t).congr fun e => once_congr ?_
      rw [hpos p]
      rfl
    case right =>
      refine (reports_oneOrMore ih.right hn' t).congr fun s => once_congr ?_
      rw [hpos' p, transGen_swap]
      rfl
  case zeroOrOne p ih =>
    constructor <;> intro t
    case left =>
      exact (reports_zeroOrOne ih.left hn t).congr fun e =>
        once_congr <| or_congr .rfl ways_pos_iff
    case right =>
      refine (reports_zeroOrOne ih.right hn' t).congr fun s =>
        once_congr <| or_congr ?_ ways_pos_iff
      grind
  case negatedPropertySet ps =>
    constructor <;> intro t <;> simp only [evalFromInGraph, evalToInGraph, EvalDataset.ways]
    all_goals
      refine EvalDataset.reports_links _ fun a q => ?_
      simp [InternalQuad.Fits]
      grind

theorem reached_iff_transGen : Worklist.Reached (0 < d.ways g p · ·) (0 < d.ways g p s ·) e ↔
    TransGen (d.Denotes g p) s e := by
  simp only [ways_pos_iff, TransGen.head'_iff]
  rfl

theorem decides_transGen (p : PropertyPath T) :
    Decides (fun n => do
        lookInTransitiveClosure n (← evalFromInGraph d n p s g) (evalFromInGraph d n p · g) e)
      (TransGen (d.Denotes g p) s e) := by
  have hfrom := (evalFromInGraph_evalToInGraph (d := d) (g := g) p).left
  refine (Decides.search (U := d.nodes) (hfrom s) hfrom ?_ e).congr reached_iff_transGen
  exact fun s e h => node_of_ways_pos h |>.right.mem_nodes

theorem evalClosedInGraph_decides : Decides (evalClosedInGraph d · path s e g)
    (d.Denotes g path s e) := by
  induction path generalizing s e
  case path | negatedPropertySet =>
    refine (Decides.const _).congr ?_
    rw [EvalDataset.internalQuadsForPattern_eq_filter]
    simp only [InternalQuad.Fits, EvalDataset.Denotes, EvalDataset.graph]
    grind
  case reverse ih => exact ih
  case sequence a b _ ihb =>
    refine (Decides.anyM ((evalFromInGraph_evalToInGraph a).left s) fun m => ihb).congr ?_
    exact exists_congr fun m => and_congr_left' ways_pos_iff
  case alternative iha ihb => exact iha.or ihb
  case zeroOrMore p _ =>
    simp only [evalClosedInGraph]
    split
    case isTrue h =>
      refine (Decides.const _).congr <| isSubjectOrObjectInGraph_iff.trans ?_
      exact ⟨fun hn => .inl ⟨h, hn⟩, fun h => EvalDataset.Denotes.node h |>.left⟩
    case isFalse h => exact (decides_transGen p).congr (or_iff_right (h ·.left)).symm
  case oneOrMore p _ => exact decides_transGen p
  case zeroOrOne p ih =>
    simp only [evalClosedInGraph]
    split
    case isTrue h =>
      refine (Decides.const _).congr <| isSubjectOrObjectInGraph_iff.trans ?_
      exact ⟨fun hn => .inl ⟨h, hn⟩, fun h => EvalDataset.Denotes.node h |>.left⟩
    case isFalse h => exact ih.congr (or_iff_right (h ·.left)).symm

theorem mem_identityPairsInGraph :
    x ∈ getSubjectOrObjectIdentityPairsInGraph d g ↔ x.1 = x.2 ∧ d.Node g x.1 := by
  unfold getSubjectOrObjectIdentityPairsInGraph EvalDataset.Node EvalDataset.graph
  simp only [List.mem_flatMap, List.mem_cons, List.not_mem_nil, or_false]
  grind

theorem evalOpenInGraph_reports (path : PropertyPath T) :
    Reports (evalOpenInGraph d · path g) (fun x => d.ways g path x.1 x.2) := by
  have hfrom (path) := evalFromInGraph_evalToInGraph (d := d) (g := g) path |>.left
  induction path
  case path p =>
    simp only [evalOpenInGraph, EvalDataset.ways]
    simp only [← List.filterMap_eq_map]
    refine EvalDataset.reports_links _ fun a q => ?_
    simp [InternalQuad.Fits]
    grind
  case reverse ih => exact ih.mapEquiv (Equiv.prodComm T T)
  case sequence a b iha _ =>
    refine iha.flatMapM (.refl _) (.refl _) (fun _ => hfrom b) (fun n s m => rfl) fun s m h => ?_
    exact node_of_ways_pos (Nat.pos_of_ne_zero h) |>.right.mem_nodes
  case alternative a b iha ihb =>
    exact iha.eraseDups_append ihb |>.congr fun x =>
      once_congr <| or_congr ways_pos_iff ways_pos_iff
  case zeroOrMore p ih =>
    refine ((Reports.const _).closure (U := d.nodes) (.refl _) (fun _ => hfrom p)
      (fun n s m => rfl) fun s m e h => (node_of_ways_pos h).right.mem_nodes).congr fun x => ?_
    refine once_congr ?_
    rw [denotes_zeroOrMore_iff]
    simp [Worklist.Reached, mem_identityPairsInGraph, ways_pos_iff]
  case oneOrMore p ih =>
    refine (ih.closure (U := d.nodes) (.refl _) (fun _ => hfrom p)
      (fun n s m => rfl) fun s m e h => (node_of_ways_pos h).right.mem_nodes).congr fun x => ?_
    exact once_congr reached_iff_transGen
  case zeroOrOne p ih =>
    refine (Reports.const _).eraseDups_append ih |>.congr fun x => once_congr <|
      or_congr ?_ ways_pos_iff
    rw [List.count_pos_iff_mem, mem_identityPairsInGraph]
  case negatedPropertySet ps =>
    simp only [evalOpenInGraph, EvalDataset.ways]
    refine EvalDataset.reports_links _ fun a q => ?_
    simp [InternalQuad.Fits]
    grind

end PathEvaluator
