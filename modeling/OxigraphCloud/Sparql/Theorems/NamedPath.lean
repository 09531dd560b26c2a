import OxigraphCloud.Sparql.Theorems.PropertyPath

-- What the evaluators of property paths report when the graph is not known.
open Filter Relation

theorem once_mul_once : once p * once q = once (p ∧ q) := by
  by_cases p <;> by_cases q <;> simp [*]

namespace PropertyPath

variable {T : Type}

-- Whether an evaluation from one end reports a pair again for each repetition of a named graph.
def repeats (backwards : Bool) : PropertyPath T → Bool
  | .path _ => true
  | .reverse p => p.repeats (!backwards)
  | .sequence a b => if backwards then b.repeats backwards else a.repeats backwards
  | .negatedPropertySet _ => true
  | _ => false

def repeatsOpen : PropertyPath T → Bool
  | .path _ => true
  | .reverse p => p.repeatsOpen
  | .sequence a _ => a.repeatsOpen
  | .negatedPropertySet _ => true
  | _ => false

def repeatsClosed : PropertyPath T → Bool
  | .path _ => true
  | .reverse p => p.repeatsClosed
  | .sequence a _ => a.repeats false
  | .oneOrMore p => p.repeats false
  | .negatedPropertySet _ => true
  | _ => false

end PropertyPath

namespace EvalDataset

variable {T : Type} [DecidableEq T] (d : EvalDataset T)

def scale (repeats : Bool) (n : T) : ℕ :=
  if repeats then d.copies n else 1

-- Ways in the named graphs.
noncomputable def namedWays (repeats : Bool) (path : PropertyPath T) (s e : T) (g : Option T) : ℕ :=
  g.elim 0 fun n => d.scale repeats n * d.ways (some n) path s e

-- The evaluation with both ends does not count the ways of the last part.
noncomputable def closedWays (g : Option T) : PropertyPath T → T → T → ℕ
  | .reverse p, s, e => closedWays g p e s
  | .sequence a b, s, e => ∑ m ∈ d.nodes, d.ways g a s m * once (d.Denotes g b m e)
  | .oneOrMore p, s, e =>
    ∑ m ∈ d.nodes, d.ways g p s m * once (ReflTransGen (d.Denotes g p) m e)
  | path, s, e => d.ways g path s e

noncomputable def namedClosedWays (path : PropertyPath T) (s e : T) (g : Option T) : ℕ :=
  g.elim 0 fun n => d.scale path.repeatsClosed n * d.closedWays (some n) path s e

-- When the evaluation with both ends counts as the others do: the last part of a sequence can be
-- followed in one way only, and a repetition has one first step to the end.
def ClosedAlike (n : T) : PropertyPath T → T → T → Prop
  | .reverse p, s, e => ClosedAlike n p e s
  | .sequence a b, s, e => ∀ m, d.Denotes (some n) a s m → d.ways (some n) b m e ≤ 1
  | .oneOrMore p, s, e =>
    let First m := d.Denotes (some n) p s m ∧ ReflTransGen (d.Denotes (some n) p) m e
    (p.repeats false → d.copies n = 1) ∧
      ∀ m m', First m → First m' → m = m' ∧ d.ways (some n) p s m = 1
  | _, _, _ => True

variable {d}

theorem exists_namedQuads {P : InternalQuad T → Prop} :
    (∃ q ∈ d.namedQuads, q.graphName = g ∧ P q) ↔ g.isSome ∧ ∃ q ∈ d.graph g, P q := by
  have hg {n q} (h : q ∈ d.graph (some n)) : q.graphName = some n := by
    rw [graph_some] at h
    grind
  simp only [mem_namedQuads]
  cases g <;> grind

theorem Denotes.scale_pos (h : d.Denotes (some n) path s e) : 0 < d.scale r n := by
  unfold scale
  split
  case isTrue => exact h.node.left.copies_pos
  case isFalse => exact Nat.one_pos

theorem namedWays_pos_iff :
    0 < d.namedWays r path s e g ↔ g.isSome ∧ d.Denotes g path s e := by
  rcases g with _ | n
  case none => simp [namedWays]
  case some =>
    simp only [namedWays, Option.elim_some, CanonicallyOrderedAdd.mul_pos, ways_pos_iff,
      Option.isSome_some, true_and]
    exact and_iff_right_of_imp fun h => h.scale_pos

theorem closedWays_pos_iff : 0 < d.closedWays g path s e ↔ d.Denotes g path s e := by
  have hsum {s} {a : PropertyPath T} {P : T → Prop} :
      0 < ∑ m ∈ d.nodes, d.ways g a s m * once (P m) ↔ ∃ m, d.Denotes g a s m ∧ P m := by
    simp only [Finset.sum_pos_iff, CanonicallyOrderedAdd.mul_pos, ways_pos_iff, once_pos_iff]
    exact exists_congr fun m => and_iff_right_of_imp fun h => h.left.node.right.mem_nodes
  induction path generalizing s e
  case reverse ih => exact ih
  case sequence => exact hsum
  case oneOrMore => exact hsum.trans TransGen.head'_iff.symm
  all_goals exact ways_pos_iff

theorem namedClosedWays_pos_iff :
    0 < d.namedClosedWays path s e g ↔ g.isSome ∧ d.Denotes g path s e := by
  rcases g with _ | n
  case none => simp [namedClosedWays]
  case some =>
    simp only [namedClosedWays, Option.elim_some, CanonicallyOrderedAdd.mul_pos,
      closedWays_pos_iff, Option.isSome_some, true_and]
    exact and_iff_right_of_imp fun h => h.scale_pos

theorem once_eq_namedWays (h : ∀ g, d.ways g path s e = once (d.Denotes g path s e)) :
    once (g.isSome ∧ d.Denotes g path s e) = d.namedWays false path s e g := by
  rcases g with _ | n <;> simp [namedWays, scale, h]

theorem once_namedWays_alternative :
    once (0 < d.namedWays r a s e g ∨ 0 < d.namedWays r' b s e g) =
      d.namedWays false (.alternative a b) s e g := by
  refine .trans (once_congr ?_) <| once_eq_namedWays fun _ => rfl
  rw [namedWays_pos_iff, namedWays_pos_iff, ← and_or_left]
  rfl

theorem sum_namedWays :
    ∑ m ∈ d.nodes, d.namedWays r a s m g * d.ways g b m e = g.elim 0 fun n =>
      d.scale r n * ∑ m ∈ d.nodes, d.ways (some n) a s m * d.ways (some n) b m e := by
  rcases g with _ | n <;> simp [namedWays, Finset.mul_sum, Nat.mul_assoc]

theorem scale_eq_scale_iff {r r' : Bool} :
    d.scale r n = d.scale r' n ↔ r = r' ∨ d.copies n = 1 := by
  unfold scale
  cases r <;> cases r' <;> simp [eq_comm]

theorem once_denotes : once (d.Denotes g path s e) = min 1 (d.ways g path s e) := by
  by_cases h : d.Denotes g path s e
  case pos => rw [once_of h, min_eq_left (ways_pos_iff.mpr h)]
  case neg =>
    rw [← ways_pos_iff] at h
    rw [← ways_pos_iff, once_of_not h]
    omega

theorem closedWays_sequence_iff :
    d.closedWays g (.sequence a b) s e = d.ways g (.sequence a b) s e ↔
      ∀ m, d.Denotes g a s m → d.ways g b m e ≤ 1 := by
  simp only [closedWays, ways, once_denotes]
  rw [Finset.sum_eq_sum_iff_of_le fun m _ => Nat.mul_le_mul_left _ (min_le_right _ _)]
  constructor
  case mp =>
    intro h m hm
    have := Nat.eq_of_mul_eq_mul_left (ways_pos_iff.mpr hm) <| h m hm.node.right.mem_nodes
    omega
  case mpr =>
    intro h m _
    rcases Nat.eq_zero_or_pos (d.ways g a s m) with hm | hm
    case inl => rw [hm, Nat.zero_mul, Nat.zero_mul]
    case inr => rw [min_eq_right (h m (ways_pos_iff.mp hm))]

theorem closedWays_oneOrMore_le_iff : d.closedWays g (.oneOrMore p) s e ≤ 1 ↔
    ∀ m m', d.Denotes g p s m ∧ ReflTransGen (d.Denotes g p) m e →
      d.Denotes g p s m' ∧ ReflTransGen (d.Denotes g p) m' e → m = m' ∧ d.ways g p s m = 1 := by
  have hw {m} (h : ReflTransGen (d.Denotes g p) m e) : d.ways g p s m * once
      (ReflTransGen (d.Denotes g p) m e) = d.ways g p s m := by rw [once_of h, Nat.mul_one]
  unfold closedWays
  simp only [Finset.sum_le_one_iff, ← Nat.pos_iff_ne_zero, CanonicallyOrderedAdd.mul_pos,
    ways_pos_iff, once_pos_iff]
  constructor
  case mp =>
    intro h m m' hm hm'
    have := h m m' hm.left.node.right.mem_nodes hm'.left.node.right.mem_nodes hm hm'
    rwa [hw hm.right] at this
  case mpr =>
    intro h m m' _ _ hm hm'
    rw [hw hm.right]
    exact h m m' hm hm'

theorem closedAlike_iff (h : d.Denotes (some n) path s e)
    (hr : d.scale (path.repeats false) n = d.scale (path.repeats true) n) :
    d.scale path.repeatsClosed n * d.closedWays (some n) path s e =
      d.scale (path.repeats false) n * d.ways (some n) path s e ↔ d.ClosedAlike n path s e := by
  induction path generalizing s e
  case reverse p ih =>
    rw [hr]
    exact ih h hr.symm
  case sequence =>
    exact (Nat.mul_right_inj h.scale_pos.ne').trans closedWays_sequence_iff
  case oneOrMore p _ =>
    have hc : 0 < d.closedWays (some n) (.oneOrMore p) s e := closedWays_pos_iff.mpr h
    have hw : d.ways (some n) (.oneOrMore p) s e = 1 := once_of h
    have hs : d.scale (p.repeats false) n = 1 ↔ (p.repeats false → d.copies n = 1) := by
      unfold EvalDataset.scale
      split <;> simp [*]
    have hl : d.closedWays (some n) (.oneOrMore p) s e = 1 ↔
        d.closedWays (some n) (.oneOrMore p) s e ≤ 1 := by omega
    rw [hw]
    exact mul_eq_one.trans <| and_congr hs <| hl.trans closedWays_oneOrMore_le_iff
  all_goals exact iff_of_true rfl trivial

end EvalDataset

namespace PathEvaluator

open EvalDataset (ways_pos_iff denotes_zeroOrMore_iff namedWays_pos_iff namedClosedWays_pos_iff
  once_eq_namedWays once_namedWays_alternative)

variable {T : Type} [DecidableEq T] {d : EvalDataset T}

theorem mem_findGraphs :
    g ∈ findGraphsWhereTheNodeIsIn d t ↔ g.isSome ∧ d.Node g t := by
  unfold findGraphsWhereTheNodeIsIn EvalDataset.Node
  rw [EvalDataset.internalQuadsForPattern_eq_filter (s := some t),
    EvalDataset.internalQuadsForPattern_eq_filter (o := some t), ← EvalDataset.exists_namedQuads]
  simp only [EvalDataset.namedQuads, List.mem_map, List.mem_append, List.mem_filter,
    InternalQuad.Fits]
  grind

def tagOnly : Option T ≃ Option T × Unit :=
  (Equiv.prodPUnit (Option T)).symm

-- The graphs with a node, each of them once.
theorem reports_datasetNode {β δ : Type} [DecidableEq β] [DecidableEq δ]
    (e' : β ≃ Option T × δ) {f : ℕ → Option T → Option (List β)}
    {w : Option T → ℕ → Option (List δ)} {W : Option T → δ → ℕ} (hw : ∀ g, Reports (w g) (W g))
    (hf : ∀ n g, f n g = (w g n).map (List.map fun x => e'.symm (g, x))) (t : T) :
    Reports (fun n => runIfTermIsADatasetNode d t (f n))
      fun b => once ((e' b).1.isSome ∧ d.Node (e' b).1 t) * W (e' b).1 (e' b).2 := by
  have hgraphs := Reports.const <| hashDeduplicate <| findGraphsWhereTheNodeIsIn d t
  refine (hgraphs.flatMapM (U := Finset.univ) tagOnly e' (fun g _ => hw g) (fun n g _ => hf n g)
    fun _ _ _ => Finset.mem_univ _).congr fun b => ?_
  rw [Finset.univ_unique, Finset.sum_singleton]
  congr 1
  rw [hashDeduplicate, List.count_eraseDups, List.count_pos_iff_mem]
  exact once_congr mem_findGraphs

-- Steps of the evaluation from one end, for either direction.
section

variable {A B : Option T → T → T → ℕ} {N : T → T → Option T → ℕ}
  {x : ℕ → T → Option (List (T × Option T))} {y z : Option T → ℕ → T → Option (List T)}
  (hx : ∀ s, Reports (x · s) fun p => N s p.1 p.2) (hy : ∀ g s, Reports (y g · s) (A g s))
  (hz : ∀ g s, Reports (z g · s) (B g s)) (ha : ∀ g s e, 0 < A g s e → d.Node g s ∧ d.Node g e)
  (hn : ∀ s e g, 0 < N s e g ↔ g.isSome ∧ 0 < A g s e)

include hx hz ha hn in
theorem reports_named_sequence (s : T) :
    Reports (fun n => do (← x n s).flatMapM fun (m, g) => (z g n m).map (List.map (·, g)))
      fun p => ∑ m ∈ d.nodes, N s m p.2 * B p.2 m p.1 := by
  refine (hx s).flatMapM (Equiv.prodComm ..) (Equiv.prodComm ..) hz (fun n g m => rfl) ?_
  intro g m h
  have ⟨_, h⟩ := hn s m g |>.mp <| Nat.pos_of_ne_zero h
  exact ha g s m h |>.right.mem_nodes

include hy ha in
theorem reports_named_zeroOrMore (s : T) :
    Reports (fun n => runIfTermIsADatasetNode d s fun g =>
        (transitiveClosure n [s] (y g n)).map (List.map (·, g)))
      fun p => once (p.2.isSome ∧ (s = p.1 ∧ d.Node p.2 s ∨ TransGen (0 < A p.2 · ·) s p.1)) := by
  have hw g := reports_closure (hy g) (ha g) (.const [s])
  refine (reports_datasetNode (Equiv.prodComm ..) hw (fun n g => rfl) s).congr fun p => ?_
  rw [once_mul_once, eq_or_transGen_iff fun s e h => (ha _ s e h).left]
  simp [Worklist.Reached, and_assoc]

include hx hy ha hn in
theorem reports_named_oneOrMore (s : T) :
    Reports (fun n => do
        transitiveClosure n (← x n s) fun (e, g) => (y g n e).map (List.map (·, g)))
      fun p => once (p.2.isSome ∧ TransGen (0 < A p.2 · ·) s p.1) := by
  refine ((hx s).closure (U := d.nodes) (Equiv.prodComm ..) hy (fun n g m => rfl)
    fun g s e h => ha g s e h |>.right.mem_nodes).congr fun p => once_congr ?_
  rw [TransGen.head'_iff]
  simp [Worklist.Reached, hn, and_assoc]

include hy ha in
theorem reports_named_zeroOrOne (s : T) :
    Reports (fun n => runIfTermIsADatasetNode d s fun g => do
        some <| (hashDeduplicate <| s :: (← y g n s)).map (·, g))
      fun p => once (p.2.isSome ∧ (s = p.1 ∧ d.Node p.2 s ∨ 0 < A p.2 s p.1)) := by
  have hw g := (Reports.const [s]).eraseDups_append (hy g s)
  refine (reports_datasetNode (Equiv.prodComm ..) hw (fun n g => ?_) s).congr fun p => ?_
  case refine_1 => cases y g n s <;> rfl
  case refine_2 =>
    rw [once_mul_once]
    refine once_congr ?_
    have := ha p.2 s p.1
    simp
    grind

end

theorem evalFromInUnknownGraph_evalToInUnknownGraph (path : PropertyPath T) :
    (∀ s, Reports (evalFromInUnknownGraph d · path s) fun p =>
        d.namedWays (path.repeats false) path s p.1 p.2) ∧
      ∀ e, Reports (evalToInUnknownGraph d · path e) fun p =>
        d.namedWays (path.repeats true) path p.1 e p.2 := by
  have hfrom path g := (evalFromInGraph_evalToInGraph (d := d) (g := g) path).left
  have hto path g := (evalFromInGraph_evalToInGraph (d := d) (g := g) path).right
  have ha {path} g s e (h : 0 < d.ways g path s e) := node_of_ways_pos h
  have ha' {path} g s e (h : 0 < d.ways g path e s) := (node_of_ways_pos h).symm
  have hn {r path} s e g : 0 < d.namedWays r path s e g ↔ g.isSome ∧ 0 < d.ways g path s e :=
    namedWays_pos_iff.trans <| and_congr_right' ways_pos_iff.symm
  have hn' {r path} s e g : 0 < d.namedWays r path e s g ↔ g.isSome ∧ 0 < d.ways g path e s :=
    hn e s g
  have hpos path g : (fun s e => 0 < d.ways g path s e) = d.Denotes g path :=
    funext₂ fun _ _ => propext ways_pos_iff
  have hpos' path g : (fun s e => 0 < d.ways g path e s) = Function.swap (d.Denotes g path) :=
    funext₂ fun _ _ => propext ways_pos_iff
  induction path
  case path p =>
    constructor <;> intro t <;> simp only [evalFromInUnknownGraph, evalToInUnknownGraph]
    all_goals
      simp only [← List.filterMap_eq_map]
      refine EvalDataset.reports_namedLinks (· == p) fun a q => ?_
      simp [InternalQuad.Fits]
      grind
  case reverse ih => exact ih.symm
  case sequence a b iha ihb =>
    constructor <;> intro t
    case left =>
      exact (reports_named_sequence iha.left (hfrom b) ha hn t).congr fun p =>
        EvalDataset.sum_namedWays
    case right =>
      refine (reports_named_sequence ihb.right (hto a) ha' hn' t).congr fun p => ?_
      rcases p with ⟨s, _ | n⟩
      case none => simp [EvalDataset.namedWays]
      case some =>
        simp only [EvalDataset.namedWays, Option.elim_some, EvalDataset.ways, Finset.mul_sum]
        exact Finset.sum_congr rfl fun m _ => by ac_rfl
  case alternative a b iha ihb =>
    constructor <;> intro t
    case left =>
      exact (iha.left t).eraseDups_append (ihb.left t) |>.congr fun p => once_namedWays_alternative
    case right =>
      exact (iha.right t).eraseDups_append (ihb.right t) |>.congr fun p =>
        once_namedWays_alternative
  case zeroOrMore p ih =>
    constructor <;> intro t
    case left =>
      refine (reports_named_zeroOrMore (hfrom p) ha t).congr fun x => ?_
      refine .trans (once_congr ?_) <| once_eq_namedWays fun _ => rfl
      rw [hpos p]
      rfl
    case right =>
      refine (reports_named_zeroOrMore (hto p) ha' t).congr fun x => ?_
      refine .trans (once_congr ?_) <| once_eq_namedWays fun _ => rfl
      rw [hpos' p, transGen_swap, EvalDataset.Denotes]
      grind
  case oneOrMore p ih =>
    constructor <;> intro t
    case left =>
      refine (reports_named_oneOrMore ih.left (hfrom p) ha hn t).congr fun x => ?_
      refine .trans (once_congr ?_) <| once_eq_namedWays fun _ => rfl
      rw [hpos p]
      rfl
    case right =>
      refine (reports_named_oneOrMore ih.right (hto p) ha' hn' t).congr fun x => ?_
      refine .trans (once_congr ?_) <| once_eq_namedWays fun _ => rfl
      rw [hpos' p, transGen_swap]
      rfl
  case zeroOrOne p ih =>
    constructor <;> intro t
    case left =>
      refine (reports_named_zeroOrOne (hfrom p) ha t).congr fun x => ?_
      refine .trans (once_congr ?_) <| once_eq_namedWays fun _ => rfl
      rw [ways_pos_iff]
      rfl
    case right =>
      refine (reports_named_zeroOrOne (hto p) ha' t).congr fun x => ?_
      refine .trans (once_congr ?_) <| once_eq_namedWays fun _ => rfl
      rw [ways_pos_iff, EvalDataset.Denotes]
      grind
  case negatedPropertySet ps =>
    constructor <;> intro t <;> simp only [evalFromInUnknownGraph, evalToInUnknownGraph]
    all_goals
      refine EvalDataset.reports_namedLinks (· ∉ ps) fun a q => ?_
      simp [InternalQuad.Fits]
      grind

theorem mem_identityPairsInDataset : x ∈ getSubjectOrObjectIdentityPairsInDataset d ↔
    x.2.2.isSome ∧ x.1 = x.2.1 ∧ d.Node x.2.2 x.1 := by
  unfold getSubjectOrObjectIdentityPairsInDataset EvalDataset.Node
  rw [and_left_comm, ← EvalDataset.exists_namedQuads]
  simp only [EvalDataset.namedQuads, List.mem_flatMap, List.mem_cons, List.not_mem_nil, or_false]
  grind

-- The graph and the start stay as they are.
def startAndGraph : T × T × Option T ≃ (T × Option T) × T where
  toFun x := ((x.1, x.2.2), x.2.1)
  invFun x := (x.1.1, x.2, x.1.2)

def swapEnds : T × T × Option T ≃ T × T × Option T where
  toFun x := (x.2.1, x.1, x.2.2)
  invFun x := (x.2.1, x.1, x.2.2)

theorem evalOpenInUnknownGraph_reports (path : PropertyPath T) :
    Reports (evalOpenInUnknownGraph d · path) fun x =>
      d.namedWays path.repeatsOpen path x.1 x.2.1 x.2.2 := by
  have hfrom path g := (evalFromInGraph_evalToInGraph (d := d) (g := g) path).left
  induction path
  case path p =>
    simp only [evalOpenInUnknownGraph]
    simp only [← List.filterMap_eq_map]
    refine EvalDataset.reports_namedLinks (· == p) fun a q => ?_
    simp [InternalQuad.Fits]
    grind
  case reverse ih => exact ih.mapEquiv swapEnds
  case sequence a b iha _ =>
    refine (iha.flatMapM startAndGraph startAndGraph (U := d.nodes) (fun c => hfrom b c.2)
      (fun n c m => rfl) fun c m h => ?_).congr fun x => EvalDataset.sum_namedWays
    exact (namedWays_pos_iff.mp (Nat.pos_of_ne_zero h)).right.node.right.mem_nodes
  case alternative a b iha ihb =>
    exact iha.eraseDups_append ihb |>.congr fun x => once_namedWays_alternative
  case zeroOrMore p ih =>
    refine ((Reports.const _).closure (U := d.nodes) startAndGraph (fun c => hfrom p c.2)
      (fun n c m => rfl) fun c m e h => (node_of_ways_pos h).right.mem_nodes).congr fun x => ?_
    refine .trans (once_congr ?_) <| once_eq_namedWays fun _ => rfl
    rw [denotes_zeroOrMore_iff]
    simp [Worklist.Reached, mem_identityPairsInDataset, ways_pos_iff, startAndGraph, and_assoc]
  case oneOrMore p ih =>
    refine (ih.closure (U := d.nodes) startAndGraph (fun c => hfrom p c.2)
      (fun n c m => rfl) fun c m e h => (node_of_ways_pos h).right.mem_nodes).congr fun x => ?_
    refine .trans (once_congr ?_) <| once_eq_namedWays fun _ => rfl
    simp [Worklist.Reached, namedWays_pos_iff, ways_pos_iff, startAndGraph, and_assoc,
      EvalDataset.Denotes, TransGen.head'_iff]
  case zeroOrOne p ih =>
    refine (Reports.const _).eraseDups_append ih |>.congr fun x => ?_
    refine .trans (once_congr ?_) <| once_eq_namedWays fun _ => rfl
    rw [List.count_pos_iff_mem, mem_identityPairsInDataset, namedWays_pos_iff, ← and_or_left]
    rfl
  case negatedPropertySet ps =>
    simp only [evalOpenInUnknownGraph]
    refine EvalDataset.reports_namedLinks (· ∉ ps) fun a q => ?_
    simp [InternalQuad.Fits]
    grind

omit [DecidableEq T] in
theorem map_tagOnly (x : Option Bool) (g : Option T) :
    (do let isFound ← x
        some <| if isFound then [g] else []) =
      (x.map fun b => if b then [()] else []).map (List.map fun y => tagOnly.symm (g, y)) := by
  rcases x with _ | _ | _ <;> rfl

-- A test in each graph with a node.
theorem reports_datasetNode_decides {b : Option T → ℕ → Option Bool} {P : Option T → Prop}
    (h : ∀ g, Decides (b g) (P g)) (t : T) :
    Reports (fun n => runIfTermIsADatasetNode d t fun g => do
        let isFound ← b g n
        some <| if isFound then [g] else [])
      fun g => once (g.isSome ∧ d.Node g t ∧ P g) := by
  refine (reports_datasetNode tagOnly (fun g => (h g).reports) (fun n g => map_tagOnly ..)
    t).congr fun g => ?_
  rw [once_mul_once, and_assoc]
  rfl

-- A test after an evaluation from the start.
theorem reports_flatMapM_decides {b : Option T → T → ℕ → Option Bool} {P : Option T → T → Prop}
    (a : PropertyPath T) (h : ∀ g m, Decides (b g m) (P g m)) (s : T) :
    Reports (fun n => do
        (← evalFromInUnknownGraph d n a s).flatMapM fun (m, g) => do
          let isFound ← b g m n
          some <| if isFound then [g] else [])
      fun g => g.elim 0 fun n => d.scale (a.repeats false) n *
        ∑ m ∈ d.nodes, d.ways (some n) a s m * once (P (some n) m) := by
  have ha := (evalFromInUnknownGraph_evalToInUnknownGraph (d := d) a).left s
  refine (ha.flatMapM (Equiv.prodComm ..) tagOnly (U := d.nodes) (fun g m => (h g m).reports)
    (fun n g m => map_tagOnly ..) fun g m hm => ?_).congr fun g => ?_
  case refine_1 =>
    exact (namedWays_pos_iff.mp <| Nat.pos_of_ne_zero hm).right.node.right.mem_nodes
  case refine_2 =>
    rcases g with _ | n <;> simp [tagOnly, EvalDataset.namedWays, Finset.mul_sum, Nat.mul_assoc]

theorem decides_reflTransGen (p : PropertyPath T) (g : Option T) (s e : T) :
    Decides (fun n => lookInTransitiveClosure n [s] (evalFromInGraph d n p · g) e)
      (ReflTransGen (d.Denotes g p) s e) := by
  have hfrom := (evalFromInGraph_evalToInGraph (d := d) (g := g) p).left
  refine (Decides.search (U := d.nodes) (.const [s]) hfrom ?_ e).congr ?_
  case refine_1 => exact fun s e h => node_of_ways_pos h |>.right.mem_nodes
  case refine_2 => simp [Worklist.Reached, ways_pos_iff]

theorem evalClosedInUnknownGraph_reports (path : PropertyPath T) (s e : T) :
    Reports (evalClosedInUnknownGraph d · path s e) (d.namedClosedWays path s e) := by
  induction path generalizing s e
  case path p =>
    simp only [evalClosedInUnknownGraph]
    simp only [← List.filterMap_eq_map]
    refine EvalDataset.reports_namedLinks (· == p) fun a q => ?_
    simp [InternalQuad.Fits]
    grind
  case reverse ih => exact ih e s
  case sequence a b _ _ =>
    have hb g m : Decides (evalClosedInGraph d · b m e g) (d.Denotes g b m e) :=
      evalClosedInGraph_decides
    exact reports_flatMapM_decides a hb s
  case alternative a b iha ihb =>
    refine (iha s e).eraseDups_append (ihb s e) |>.congr fun g => ?_
    refine .trans (once_congr ?_) <| once_eq_namedWays fun _ => rfl
    rw [namedClosedWays_pos_iff, namedClosedWays_pos_iff, ← and_or_left]
    rfl
  case zeroOrMore p _ =>
    refine (reports_datasetNode_decides (decides_reflTransGen p · s e) s).congr fun g => ?_
    refine .trans (once_congr ?_) <| once_eq_namedWays fun _ => rfl
    rw [denotes_zeroOrMore_iff]
  case oneOrMore p _ => exact reports_flatMapM_decides p (decides_reflTransGen p · · e) s
  case zeroOrOne p _ =>
    have hp g : Decides (evalClosedInGraph d · p s e g) (d.Denotes g p s e) :=
      evalClosedInGraph_decides
    simp only [evalClosedInUnknownGraph]
    split
    case isTrue h =>
      refine (reports_datasetNode_decides (fun _ => .const true) s).congr fun g => ?_
      refine .trans (once_congr <| and_congr_right' ?_) <| once_eq_namedWays fun _ => rfl
      exact ⟨fun hn => .inl ⟨h, hn.left⟩, fun h => ⟨EvalDataset.Denotes.node h |>.left, rfl⟩⟩
    case isFalse h =>
      refine (reports_datasetNode_decides hp s).congr fun g => ?_
      refine .trans (once_congr <| and_congr_right' ?_) <| once_eq_namedWays fun _ => rfl
      rw [EvalDataset.Denotes, or_iff_right (h ·.left)]
      exact and_iff_right_of_imp fun h => h.node.left
  case negatedPropertySet ps =>
    simp only [evalClosedInUnknownGraph]
    refine EvalDataset.reports_namedLinks (· ∉ ps) fun a q => ?_
    simp [InternalQuad.Fits]
    grind

-- An evaluation ends, and its result has exactly these elements.
def Describes {α : Type} (run : ℕ → Option (List α)) (P : α → Prop) : Prop :=
  ∀ᶠ rounds in atTop, ∃ l, run rounds = some l ∧ ∀ a, a ∈ l ↔ P a

-- An evaluation ends, and its result has an element this number of times.
def Times {α : Type} [DecidableEq α] (run : ℕ → Option (List α)) (a : α) (k : ℕ) : Prop :=
  ∀ᶠ rounds in atTop, ∃ l, run rounds = some l ∧ l.count a = k

section

variable {α : Type} [DecidableEq α] {run : ℕ → Option (List α)} {times : α → ℕ}

theorem Describes.of_reports (h : Reports run times) (hp : ∀ a, 0 < times a ↔ P a) :
    Describes run P := by
  filter_upwards [h] with n ⟨l, hl, hc⟩
  exact ⟨l, hl, fun a => by rw [← List.count_pos_iff_mem, hc, hp]⟩

theorem Times.iff_of_reports (h : Reports run times) : Times run a k ↔ times a = k where
  mp ht := by
    have ⟨_, ⟨l, hl, hc⟩, ⟨l', hl', hc'⟩⟩ := (h.and ht).exists
    obtain rfl : l = l' := by simpa [hl] using hl'
    rw [← hc, hc']
  mpr ht := h.mono fun _ ⟨l, hl, hc⟩ => ⟨l, hl, (hc a).trans ht⟩

end

-- The four evaluations in a graph report a pair the same number of times.
def AlikeInGraph (d : EvalDataset T) (path : PropertyPath T) (s e : T) (g : Option T) : Prop :=
  ∃ k,
    Times (fun n => (evalClosedInGraph d n path s e g).map fun b => if b then [()] else []) () k ∧
    Times (evalFromInGraph d · path s g) e k ∧
    Times (evalToInGraph d · path e g) s k ∧
    Times (evalOpenInGraph d · path g) (s, e) k

def AlikeInUnknownGraph (d : EvalDataset T) (path : PropertyPath T) (s e n : T) : Prop :=
  ∃ k,
    Times (evalClosedInUnknownGraph d · path s e) (some n) k ∧
    Times (evalFromInUnknownGraph d · path s) (e, some n) k ∧
    Times (evalToInUnknownGraph d · path e) (s, some n) k ∧
    Times (evalOpenInUnknownGraph d · path) (s, e, some n) k

theorem describes_denotes (d : EvalDataset T) (path : PropertyPath T) :
    (∀ s e g, Decides (evalClosedInGraph d · path s e g) (d.Denotes g path s e)) ∧
    (∀ s g, Describes (evalFromInGraph d · path s g) fun e => d.Denotes g path s e) ∧
    (∀ e g, Describes (evalToInGraph d · path e g) fun s => d.Denotes g path s e) ∧
    (∀ g, Describes (evalOpenInGraph d · path g) fun (s, e) => d.Denotes g path s e) ∧
    (∀ s e, Describes (evalClosedInUnknownGraph d · path s e) fun g =>
      ∃ n, g = some n ∧ d.Denotes (some n) path s e) ∧
    (∀ s, Describes (evalFromInUnknownGraph d · path s) fun (e, g) =>
      ∃ n, g = some n ∧ d.Denotes (some n) path s e) ∧
    (∀ e, Describes (evalToInUnknownGraph d · path e) fun (s, g) =>
      ∃ n, g = some n ∧ d.Denotes (some n) path s e) ∧
    Describes (evalOpenInUnknownGraph d · path) fun (s, e, g) =>
      ∃ n, g = some n ∧ d.Denotes (some n) path s e := by
  have hnamed {g : Option T} {s e : T} : g.isSome ∧ d.Denotes g path s e ↔
      ∃ n, g = some n ∧ d.Denotes (some n) path s e := by
    cases g <;> simp
  have hgraph g := evalFromInGraph_evalToInGraph (d := d) (g := g) path
  obtain ⟨hfrom, hto⟩ := evalFromInUnknownGraph_evalToInUnknownGraph (d := d) path
  refine ⟨fun s e g => evalClosedInGraph_decides, fun s g => ?_, fun e g => ?_, fun g => ?_,
    fun s e => ?_, fun s => ?_, fun e => ?_, ?_⟩
  case refine_1 => exact .of_reports ((hgraph g).left s) fun _ => ways_pos_iff
  case refine_2 => exact .of_reports ((hgraph g).right e) fun _ => ways_pos_iff
  case refine_3 => exact .of_reports (evalOpenInGraph_reports path) fun _ => ways_pos_iff
  case refine_4 =>
    exact .of_reports (evalClosedInUnknownGraph_reports path s e) fun _ =>
      namedClosedWays_pos_iff.trans hnamed
  case refine_5 => exact .of_reports (hfrom s) fun _ => namedWays_pos_iff.trans hnamed
  case refine_6 => exact .of_reports (hto e) fun _ => namedWays_pos_iff.trans hnamed
  case refine_7 =>
    exact .of_reports (evalOpenInUnknownGraph_reports path) fun _ =>
      namedWays_pos_iff.trans hnamed

theorem alikeInGraph_iff : AlikeInGraph d path s e g ↔ d.ways g path s e ≤ 1 := by
  have ⟨hfrom, hto⟩ := evalFromInGraph_evalToInGraph (d := d) (g := g) path
  have hclosed : Decides (evalClosedInGraph d · path s e g) (d.Denotes g path s e) :=
    evalClosedInGraph_decides
  unfold AlikeInGraph
  simp only [Times.iff_of_reports hclosed.reports, Times.iff_of_reports (hfrom s),
    Times.iff_of_reports (hto e), Times.iff_of_reports (evalOpenInGraph_reports path),
    ← ways_pos_iff, exists_eq_left', and_self]
  rcases Nat.eq_zero_or_pos (d.ways g path s e) with h | h
  case inl => simp [h]
  case inr =>
    rw [once_of h]
    omega

theorem alikeInUnknownGraph_iff : AlikeInUnknownGraph d path s e n ↔
    d.ways (some n) path s e = 0 ∨
      d.scale (path.repeats false) n = d.scale (path.repeats true) n ∧
      d.scale (path.repeats false) n = d.scale path.repeatsOpen n ∧
      d.scale path.repeatsClosed n * d.closedWays (some n) path s e =
        d.scale (path.repeats false) n * d.ways (some n) path s e := by
  have ⟨hfrom, hto⟩ := evalFromInUnknownGraph_evalToInUnknownGraph (d := d) path
  have hclosed := evalClosedInUnknownGraph_reports (d := d) path s e
  unfold AlikeInUnknownGraph
  simp only [Times.iff_of_reports hclosed, Times.iff_of_reports (hfrom s),
    Times.iff_of_reports (hto e), Times.iff_of_reports (evalOpenInUnknownGraph_reports path),
    exists_eq_left', EvalDataset.namedWays, EvalDataset.namedClosedWays, Option.elim_some]
  rcases Nat.eq_zero_or_pos (d.ways (some n) path s e) with h | h
  case inl =>
    have hc : d.closedWays (some n) path s e = 0 := by
      by_contra hc
      have := ways_pos_iff.mpr <| EvalDataset.closedWays_pos_iff.mp <| Nat.pos_of_ne_zero hc
      omega
    simp [h, hc]
  case inr =>
    have hm (a b : ℕ) : a * d.ways (some n) path s e = b * d.ways (some n) path s e ↔ a = b :=
      Nat.mul_left_inj h.ne'
    rw [or_iff_right h.ne']
    constructor
    case mp =>
      rintro ⟨hf, ht, ho⟩
      exact ⟨hm _ _ |>.mp <| hf.trans ht.symm, hm _ _ |>.mp <| hf.trans ho.symm, hf.symm⟩
    case mpr =>
      rintro ⟨ht, ho, hf⟩
      exact ⟨hf.symm, ht ▸ hf.symm, ho ▸ hf.symm⟩

-- The same on the path, the list of named graphs and the ways along parts of the path.
theorem alikeInUnknownGraph_iff_closedAlike (h : d.Denotes (some n) path s e) :
    AlikeInUnknownGraph d path s e n ↔
      (path.repeats false = path.repeats true ∨ d.copies n = 1) ∧
      (path.repeats false = path.repeatsOpen ∨ d.copies n = 1) ∧ d.ClosedAlike n path s e := by
  rw [alikeInUnknownGraph_iff, or_iff_right (EvalDataset.ways_pos_iff.mpr h).ne']
  simp only [← EvalDataset.scale_eq_scale_iff]
  exact and_congr_right fun hr => and_congr_right fun _ => EvalDataset.closedAlike_iff h hr

-- The pair is reported as often in each of the four evaluations.
theorem reportedAlike_iff (d : EvalDataset T) (path : PropertyPath T) (s e : T) :
    (∀ g, AlikeInGraph d path s e g ↔ d.ways g path s e ≤ 1) ∧
    ∀ n, AlikeInUnknownGraph d path s e n ↔
      d.ways (some n) path s e = 0 ∨
        d.scale (path.repeats false) n = d.scale (path.repeats true) n ∧
        d.scale (path.repeats false) n = d.scale path.repeatsOpen n ∧
        d.scale path.repeatsClosed n * d.closedWays (some n) path s e =
          d.scale (path.repeats false) n * d.ways (some n) path s e :=
  ⟨fun _ => alikeInGraph_iff, fun _ => alikeInUnknownGraph_iff⟩

-- Two properties between the same nodes, and a path that excludes a third one.
def twoProperties : EvalDataset ℕ where
  quads := [⟨0, 1, 3, none⟩, ⟨0, 2, 3, none⟩]
  specification := { default := some [none], named := some [] }

theorem not_alikeInGraph_twoProperties :
    ¬AlikeInGraph twoProperties (.negatedPropertySet [4]) 0 3 none := by
  rintro ⟨k, hclosed, hfrom, _⟩
  have ⟨_, l, hl, hk⟩ := hclosed.exists
  have ⟨_, l', hl', hk'⟩ := hfrom.exists
  obtain rfl : [()] = l := Option.some.inj hl
  obtain rfl : [3, 3] = l' := Option.some.inj hl'
  exact absurd (hk.trans hk'.symm) (by decide)

end PathEvaluator
