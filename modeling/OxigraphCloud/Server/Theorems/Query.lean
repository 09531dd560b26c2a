import OxigraphCloud.Server.Theorems.Authorization
import OxigraphCloud.Server.Theorems.Transactions

-- The names of blank nodes.
namespace Rdf

variable {f g : BlankNode → BlankNode}

def NamedOrBlankNode.blankNodes : NamedOrBlankNode → Set BlankNode
  | namedNode _    => ∅
  | blankNode node => {node}

def Term.blankNodes : Term → Set BlankNode
  | namedNode _               => ∅
  | blankNode node            => {node}
  | literal _                 => ∅
  | triple subject _ object => subject.blankNodes ∪ object.blankNodes

def GraphName.blankNodes : GraphName → Set BlankNode
  | namedNode _    => ∅
  | blankNode node => {node}
  | defaultGraph   => ∅

def Quad.blankNodes (quad : Quad) : Set BlankNode :=
  quad.subject.blankNodes ∪ quad.object.blankNodes ∪ quad.graphName.blankNodes

theorem NamedOrBlankNode.rename_rename (node : NamedOrBlankNode) :
    (node.rename f).rename g = node.rename (g ∘ f) := by
  cases node <;> rfl

theorem Term.rename_rename (term : Term) : (term.rename f).rename g = term.rename (g ∘ f) := by
  induction term
  case triple subject predicate object hi =>
    simp only [rename, hi, NamedOrBlankNode.rename_rename]
  all_goals rfl

theorem GraphName.rename_rename (graphName : GraphName) :
    (graphName.rename f).rename g = graphName.rename (g ∘ f) := by
  cases graphName <;> rfl

theorem Quad.rename_rename (quad : Quad) : (quad.rename f).rename g = quad.rename (g ∘ f) := by
  simp [rename, NamedOrBlankNode.rename_rename, Term.rename_rename, GraphName.rename_rename]

theorem NamedOrBlankNode.rename_eq_self {node : NamedOrBlankNode}
    (h : ∀ b ∈ node.blankNodes, f b = b) : node.rename f = node := by
  cases node
  case namedNode => rfl
  case blankNode node => rw [rename, h node rfl]

theorem Term.rename_eq_self {term : Term} (h : ∀ b ∈ term.blankNodes, f b = b) :
    term.rename f = term := by
  induction term
  case namedNode | literal => rfl
  case blankNode node => rw [rename, h node rfl]
  case triple subject predicate object hi =>
    rw [rename, hi fun b hb => h b (.inr hb),
      NamedOrBlankNode.rename_eq_self fun b hb => h b (.inl hb)]

theorem GraphName.rename_eq_self {graphName : GraphName}
    (h : ∀ b ∈ graphName.blankNodes, f b = b) : graphName.rename f = graphName := by
  cases graphName
  case namedNode | defaultGraph => rfl
  case blankNode node => rw [rename, h node rfl]

theorem Quad.rename_eq_self {quad : Quad} (h : ∀ b ∈ quad.blankNodes, f b = b) :
    quad.rename f = quad := by
  rw [rename, NamedOrBlankNode.rename_eq_self fun b hb => h b (.inl <| .inl hb),
    Term.rename_eq_self fun b hb => h b (.inl <| .inr hb),
    GraphName.rename_eq_self fun b hb => h b (.inr hb)]

theorem Quad.rename_injective (π : Equiv.Perm BlankNode) : Function.Injective (Quad.rename π) := by
  refine Function.LeftInverse.injective (g := Quad.rename π.symm) fun quad => ?_
  rw [rename_rename]
  exact Quad.rename_eq_self fun b _ => π.symm_apply_apply b

end Rdf

namespace Store

open Rdf

variable {s s' : Store} {K : Set BlankNode} {quad : Quad}

def rename (names : BlankNode → BlankNode) (s : Store) : Store where
  quads       := s.quads.image (Quad.rename names)
  namedGraphs := s.namedGraphs.image (NamedOrBlankNode.rename names)

-- The stores only differ in the names of blank nodes that are not in `K`.
def UpToNames (K : Set BlankNode) (s s' : Store) : Prop :=
  ∃ π : Equiv.Perm BlankNode, (∀ b ∈ K, π b = b) ∧ s' = s.rename π

theorem UpToNames.refl : s.UpToNames K s := by
  refine ⟨.refl _, fun _ _ => rfl, ?_⟩
  have hq : Quad.rename id = id := funext fun quad => Quad.rename_eq_self fun _ _ => rfl
  have hg : NamedOrBlankNode.rename id = id :=
    funext fun node => NamedOrBlankNode.rename_eq_self fun _ _ => rfl
  ext <;> simp [rename, hq, hg]

theorem rename_insert (names : BlankNode → BlankNode) :
    (s.insert quad).rename names = (s.rename names).insert (quad.rename names) := by
  have hg : quad.graphName.toNode.toFinset.image (NamedOrBlankNode.rename names) =
      (quad.graphName.rename names).toNode.toFinset := by
    cases quad.graphName <;> rfl
  simp [rename, insert, Finset.image_insert, Finset.image_union, hg, Quad.rename]

theorem rename_remove (π : Equiv.Perm BlankNode) :
    (s.remove quad).rename π = (s.rename π).remove (quad.rename π) := by
  simp [rename, remove, Finset.image_erase (Quad.rename_injective π)]

theorem UpToNames.insert (h : s.UpToNames K s') (hq : quad.blankNodes ⊆ K) :
    (s.insert quad).UpToNames K (s'.insert quad) := by
  have ⟨π, hπ, hs⟩ := h
  refine ⟨π, hπ, ?_⟩
  rw [rename_insert, Quad.rename_eq_self fun b hb => hπ b (hq hb), hs]

theorem UpToNames.remove (h : s.UpToNames K s') (hq : quad.blankNodes ⊆ K) :
    (s.remove quad).UpToNames K (s'.remove quad) := by
  have ⟨π, hπ, hs⟩ := h
  refine ⟨π, hπ, ?_⟩
  rw [rename_remove, Quad.rename_eq_self fun b hb => hπ b (hq hb), hs]

theorem UpToNames.insertAll {quads : List Quad} (h : s.UpToNames K s')
    (hq : ∀ quad ∈ quads, quad.blankNodes ⊆ K) :
    (s.insertAll quads).UpToNames K (s'.insertAll quads) := by
  induction quads generalizing s s'
  case nil => exact h
  case cons quad quads hi =>
    have ⟨hq, hqs⟩ := List.forall_mem_cons.mp hq
    exact hi (h.insert hq) hqs

theorem UpToNames.removeAll {quads : List Quad} (h : s.UpToNames K s')
    (hq : ∀ quad ∈ quads, quad.blankNodes ⊆ K) :
    (s.removeAll quads).UpToNames K (s'.removeAll quads) := by
  induction quads generalizing s s'
  case nil => exact h
  case cons quad quads hi =>
    have ⟨hq, hqs⟩ := List.forall_mem_cons.mp hq
    exact hi (h.remove hq) hqs

end Store

-- The same error, or results that are related by `R`.
def SameResult (R : α → β → Prop) : Except ε α → Except ε β → Prop
  | .ok a, .ok b       => R a b
  | .error e, .error f => e = f
  | _, _               => False

theorem SameResult.mapError {R : α → β → Prop} {x : Except ε α} {y : Except ε β} {f : ε → ε'}
    (h : SameResult R x y) : SameResult R (x.mapError f) (y.mapError f) := by
  cases x <;> cases y
  case error.error => exact congrArg f h
  case ok.ok => exact h
  all_goals contradiction

theorem SameResult.bind {R : α → β → Prop} {R' : α' → β' → Prop} {x : Except ε α} {y : Except ε β}
    {f : α → Except ε α'} {g : β → Except ε β'} (h : SameResult R x y)
    (hf : ∀ {a b}, R a b → SameResult R' (f a) (g b)) : SameResult R' (x >>= f) (y >>= g) := by
  cases x <;> cases y
  case error.error => exact h
  case ok.ok => exact hf h
  all_goals contradiction

-- Two evaluations of the same updates, each of which draws blank nodes of its own.
def Services.UpToNames (K : Set Rdf.BlankNode) (sv sv' : Services) : Prop :=
  ∀ (sparql : String) {s s' : Store}, s.UpToNames K s' →
    SameResult (fun u u' : Update =>
      SameResult (Store.UpToNames K) (u.onTransaction s) (u'.onTransaction s'))
      (sv.parseUpdate sparql) (sv'.parseUpdate sparql)

def BufferedOp.quads : BufferedOp → List Rdf.Quad
  | insertQuads quads | removeQuads quads => quads
  | sparqlUpdate _                        => []

-- The blank nodes that the buffered operations of a transaction talk about.
def TransactionRegistry.blankNodes (r : TransactionRegistry) (txnId : String) : Set Rdf.BlankNode :=
  { b | ∃ txn ∈ r.txns.lookup txnId, ∃ op ∈ txn.ops, ∃ quad ∈ op.quads, b ∈ quad.blankNodes }

namespace Services

variable {sv sv' : Services} {K : Set Rdf.BlankNode} {s s' : Store}

theorem UpToNames.replayOp {op : BufferedOp} (hsv : sv.UpToNames K sv') (h : s.UpToNames K s')
    (hK : ∀ quad ∈ op.quads, quad.blankNodes ⊆ K) :
    SameResult (Store.UpToNames K) (sv.replayOp s op) (sv'.replayOp s' op) := by
  cases op
  case insertQuads quads => exact h.insertAll hK
  case removeQuads quads => exact h.removeAll hK
  case sparqlUpdate sparql =>
    have hu := hsv sparql h
    simp only [Services.replayOp]
    cases hp : sv.parseUpdate sparql <;> cases hp' : sv'.parseUpdate sparql <;>
      simp only [hp, hp', SameResult] at hu
    case error.error => exact congrArg _ hu
    case ok.ok u u' =>
      dsimp only
      cases he : u.onTransaction s <;> cases he' : u'.onTransaction s' <;>
        simp only [he, he'] at hu
      case error.error => exact congrArg _ hu
      case ok.ok => exact hu

-- Both replays fail in the same way, or they lead to the same store.
theorem UpToNames.replayOps {ops : List BufferedOp} (hsv : sv.UpToNames K sv')
    (h : s.UpToNames K s') (hK : ∀ op ∈ ops, ∀ quad ∈ op.quads, quad.blankNodes ⊆ K) :
    SameResult (Store.UpToNames K) (sv.replayOps ops s) (sv'.replayOps ops s') := by
  induction ops generalizing s s'
  case nil => exact h
  case cons op ops hi =>
    have ⟨hop, hops⟩ := List.forall_mem_cons.mp hK
    simp only [Services.replayOps, List.foldlM_cons]
    exact (hsv.replayOp h hop).bind fun h => hi h hops

end Services

namespace TransactionRegistry

-- What a query on a copy of the store answers after the transaction has been committed there.
def commitAndQuery (r : TransactionRegistry) (sv : Services) (am : Ambient) (txnId : String)
    (s : Store) (sparql : String) : Except TransactionError String :=
  match r.commit sv am txnId s with
  | (.error e, _, _)  => .error e
  | (.ok _, _, s') => (sv.query sparql s').mapError .query

end TransactionRegistry

-- The address of queries in a transaction.
def queryPath (txnId : String) : String := "/transactions/" ++ txnId ++ "/query"

theorem splitOnce_eq_some (h : splitOnce c str = some (before, after)) :
    str.toList = before.toList ++ c :: after.toList := by
  rw [splitOnce, List.span_eq_takeWhile_dropWhile] at h
  have ha := List.takeWhile_append_dropWhile (p := (· ≠ c)) (l := str.toList)
  split at h
  case h_1 => contradiction
  case h_2 before' head after' he =>
    have ⟨hb, hd⟩ := Prod.mk.inj he
    have hc := List.head?_dropWhile_not (p := (· ≠ c)) (l := str.toList)
    rw [hd] at hc ha
    have ⟨hb', ha'⟩ := Prod.mk.inj <| Option.some.inj h
    have hc : head = c := by simpa using hc
    rw [hb, hc] at ha
    simpa [← hb', ← ha'] using ha.symm

theorem queryPath_action_ne (h : splitOnce '/' (txnId ++ "/query") = some (before, after)) :
    after ≠ "update" := by
  intro he
  have hl := congrArg List.getLast? <| splitOnce_eq_some h
  simp [he] at hl

theorem handleTransactionRoutes_query_keeps (hm : request.method = "POST") :
    (handleTransactionRoutes sv am cfg request ("/" ++ txnId ++ "/query")).Keeps := by
  have hr : stripPrefix "/" ("/" ++ txnId ++ "/query") = some (txnId ++ "/query") := by
    simp [stripPrefix]
  have hn : ¬("/" ++ txnId ++ "/query" = "" ∧ request.method = "POST") := by
    intro ⟨he, _⟩
    simpa using congrArg String.toList he
  rw [handleTransactionRoutes, if_neg hn, hr]
  have ha : ((splitOnce '/' (txnId ++ "/query")).getD (txnId ++ "/query", "")).2 ≠ "update" := by
    cases hs : splitOnce '/' (txnId ++ "/query")
    case none => simp
    case some parts => exact queryPath_action_ne hs
  dsimp only [Option.getD_some]
  generalize (splitOnce '/' _).getD _ = parts at ha
  rcases parts with ⟨id, action⟩
  split
  case isTrue => exact Handler.keeps_answer
  case isFalse =>
    split
    case h_3 =>
      refine Handler.keeps_after fun sparql server => ?_
      dsimp only
      split <;> rfl
    case h_4 => contradiction
    case h_7 => exact Handler.keeps_answer
    all_goals exact absurd (hm.symm.trans ‹_›) (by decide)

-- A query leaves the server as it is.
theorem queryPath_keeps {sv : Services} {am : Ambient} {cfg : Config} {request : Request}
    {reads : Request → Store → Except HttpError Response}
    (hp : request.path = queryPath txnId) (hm : request.method = "POST") :
    (handleRequest sv am cfg request reads).Keeps := by
  have hr : stripPrefix "/transactions" request.path = some ("/" ++ txnId ++ "/query") := by
    simp [hp, queryPath, stripPrefix, String.append_assoc]
  have hc : (handleRequestCore sv am cfg request reads).Keeps := by
    rw [handleRequestCore, hr]
    exact handleTransactionRoutes_query_keeps hm
  unfold handleRequest
  split
  case h_9 => exact hc
  all_goals
    rename_i he _
    have := congrArg String.toList <| hp.symm.trans he
    simp [queryPath] at this

namespace TransactionRegistry

-- A query in a transaction answers what it would answer after a commit, and it has no other effect.
theorem query_eq_commitAndQuery {sv sv' : Services} {K : Set Rdf.BlankNode}
    {Same : String → String → Prop} {r : TransactionRegistry} {am am' : Ambient} {sparql : String}
    (hK : r.blankNodes txnId ⊆ K) (hsv : sv.UpToNames K sv')
    (hq : ∀ {s s' : Store}, s.UpToNames K s' →
      SameResult Same (sv.query sparql s) (sv'.query sparql s'))
    (hs : (am.faults .write).start = (am'.faults .write).start)
    (hc : (am'.faults .write).commit = none) (s : Store) :
    SameResult Same (r.query sv am txnId s sparql) (r.commitAndQuery sv' am' txnId s sparql) ∧
    ∀ (cfg : Config) (request : Request) (reads : Request → Store → Except HttpError Response),
      request.path = queryPath txnId → request.method = "POST" →
      (handleRequest sv am cfg request reads).Keeps := by
  refine ⟨?_, fun _ _ _ => queryPath_keeps⟩
  unfold query commitAndQuery commit
  cases hl : r.txns.lookup txnId
  case none => rfl
  case some txn =>
    have hK : ∀ op ∈ txn.ops, ∀ quad ∈ op.quads, quad.blankNodes ⊆ K :=
      fun op ho quad hq b hb => hK ⟨txn, hl, op, ho, quad, hq, hb⟩
    have hr := hsv.replayOps (.refl (s := s)) hK
    cases hf : (am'.faults .write).start
    case some e => simp [hs, hf, Store.transact, SameResult]
    case none =>
      simp only [hs, hf, Store.transact]
      cases he : sv.replayOps txn.ops s <;> cases he' : sv'.replayOps txn.ops s <;>
        simp only [he, he', SameResult] at hr
      case error.error => exact hr
      case ok.ok s₁ s₂ =>
        simp only [hc]
        exact (hq hr).mapError

end TransactionRegistry

section Letters

theorem mem_of_readBook {book : List (UInt8 × Rdf.Quad)} {body : Bytes}
    (h : (readBook book body).mapM id = .ok quads) (hq : quad ∈ quads) :
    ∃ byte, (byte, quad) ∈ book := by
  induction body generalizing quads
  case nil =>
    cases h
    contradiction
  case cons byte body hi =>
    rw [readBook, List.map_cons, List.mapM_cons] at h
    have ⟨_, hb, h⟩ := Except.exists_of_bind_eq_ok h
    have ⟨_, hr, h⟩ := Except.exists_of_bind_eq_ok h
    cases h
    cases hq
    case head =>
      cases hl : book.lookup byte <;> rw [hl] at hb <;> cases hb
      have ⟨_, _, hl, _⟩ := List.lookup_eq_some_iff.mp hl
      exact ⟨byte, by simp [hl]⟩
    case tail hq => exact hi hr hq

-- The letters talk about no blank nodes.
theorem blankNodes_of_letters {K : Set Rdf.BlankNode} {body : Bytes} {quads : List Rdf.Quad}
    (h : (letterServices.parse .nQuads body).mapM id = .ok quads) :
    ∀ quad ∈ quads, quad.blankNodes ⊆ K := by
  intro quad hq
  have ⟨_, hm⟩ := mem_of_readBook h hq
  have he : quad.blankNodes = ∅ := by
    fin_cases hm <;> simp [letterQuad, Rdf.Quad.blankNodes, Rdf.NamedOrBlankNode.blankNodes,
      Rdf.Term.blankNodes, Rdf.GraphName.blankNodes]
  simp [he]

theorem letterServices_upToNames (K : Set Rdf.BlankNode) :
    letterServices.UpToNames K letterServices := by
  intro sparql s s' h
  rw [letterServices, Services.ofBook]
  dsimp only
  cases hr : (readBook _ (SmallString.strBytes sparql)).mapM id
  case error => rfl
  case ok quads => exact h.insertAll <| blankNodes_of_letters hr

theorem letterServices_query {K : Set Rdf.BlankNode} (sparql : String) {s s' : Store}
    (h : s.UpToNames K s') :
    SameResult Eq (letterServices.query sparql s) (letterServices.query sparql s') := by
  have ⟨π, _, hs⟩ := h
  rw [letterServices, Services.ofBook]
  dsimp only
  cases hr : (readBook _ (SmallString.strBytes sparql)).mapM id
  case error => rfl
  case ok quads =>
    have hm : ∀ quad ∈ quads, (decide (quad ∈ s.quads)) = decide (quad ∈ s'.quads) := by
      intro quad hq
      have he : quad.rename π = quad := Rdf.Quad.rename_eq_self fun b hb =>
        (blankNodes_of_letters (K := ∅) hr quad hq hb).elim
      have hi := (Rdf.Quad.rename_injective π).mem_finset_image (a := quad) (s := s.quads)
      rw [he] at hi
      simpa [hs, Store.rename] using hi.symm
    exact congrArg (toString ·.length) (List.filter_congr hm)

-- A quad with a blank node, after two letters.
def queriedRegistry : TransactionRegistry where
  txns    := Finmap.insert "1" ⟨[.sparqlUpdate "ab", .insertQuads [⟨.blankNode (.named "x"), "p",
    .namedNode "o", .defaultGraph⟩], .removeQuads [letterQuad 'a']], 0⟩ ∅
  timeout := 0

theorem TransactionRegistry.query_eq_commitAndQuery_sample :
    SameResult Eq
      (queriedRegistry.query letterServices .plain "1" (Store.empty.insert (letterQuad 'c')) "abc")
      (queriedRegistry.commitAndQuery letterServices .plain "1"
        (Store.empty.insert (letterQuad 'c')) "abc") :=
  query_eq_commitAndQuery (K := queriedRegistry.blankNodes "1") subset_rfl
    (letterServices_upToNames _) (letterServices_query "abc") rfl rfl _ |>.left

end Letters
