import OxigraphCloud.Sparql.Update
import OxigraphCloud.Storage.Theorems.Readable

namespace Sparql

variable {enc : Encoder} {delete : List GroundQuadPattern} {insert : List QuadPattern}

namespace DeleteInsertIter

theorem nextFrom_spec (it : DeleteInsertIter) :
    (solutions : List (Except QueryEvaluationError Row)) → (buffer : List DeleteInsertQuad) →
    (it.nextFrom solutions buffer).1 = (items { it with solutions, buffer }).head? ∧
    (it.nextFrom solutions buffer).2.items = (items { it with solutions, buffer }).tail
  | solutions, quad :: buffer     => by simp [nextFrom, items]
  | [], []                        => by simp [nextFrom, items]
  | .error e :: solutions, []     => by simp [nextFrom, items]
  | .ok solution :: solutions, [] => by
    simpa [nextFrom, items] using nextFrom_spec it solutions (fill it.delete it.insert solution)

def remaining : Iter.Remaining next where
  valid _ := True
  items   := items
  head _  := nextFrom_spec _ _ _ |>.left
  tail _  := ⟨trivial, nextFrom_spec _ _ _ |>.right⟩

theorem collect_eq {rows : List Row} :
    collect { solutions := rows.map .ok, delete, insert, buffer := [] } =
      .ok (rows.flatMap (fill delete insert)) := by
  have hi : items { solutions := rows.map .ok, delete, insert, buffer := [] } =
      (rows.flatMap (fill delete insert)).map .ok := by
    simp [items, List.flatMap_map, List.map_flatMap]
  rw [collect, hi, Iter.mapM_ok]

end DeleteInsertIter

-- A transaction is changed by the operation as the dataset is that it stands for.
theorem Target.evalDeleteInsert_simulates {target : Target τ} {target' : Target τ'}
    {solutions : List (Except QueryEvaluationError Row)} {R : τ → τ' → Prop}
    (hi : ∀ {t t'} quad, R t t' → R (target.insert quad t) (target'.insert quad t'))
    (hr : ∀ {t t'} quad, R t t' → R (target.remove quad t) (target'.remove quad t'))
    (h : R t t') :
    (target.evalDeleteInsert delete insert solutions t).1 =
      (target'.evalDeleteInsert delete insert solutions t').1 ∧
    R (target.evalDeleteInsert delete insert solutions t).2
      (target'.evalDeleteInsert delete insert solutions t').2 := by
  simp only [evalDeleteInsert]
  split
  case h_1 => exact ⟨rfl, h⟩
  case h_2 mutations _ =>
    refine ⟨rfl, ?_⟩
    clear * - hi hr h
    induction mutations generalizing t t'
    case nil => exact h
    case cons mutation _ hm =>
      apply hm
      cases mutation
      case delete quad => exact hr quad h
      case insert quad => exact hi quad h

theorem evalDeleteInsert_refines {b : ReadableBackend τ} {m : ReadableBackend.Reading τ}
    {solutions : List (Except QueryEvaluationError Row)} (hb : b.Lawful m) (h : m.holds t δ) :
    (b.target.evalDeleteInsert delete insert solutions t).1 =
      ((Dataset.target b.encoder).evalDeleteInsert delete insert solutions (m.view δ)).1 ∧
    ∃ δ', m.holds (b.target.evalDeleteInsert delete insert solutions t).2 δ' ∧ m.view δ' =
      ((Dataset.target b.encoder).evalDeleteInsert delete insert solutions (m.view δ)).2 := by
  apply Target.evalDeleteInsert_simulates (R := fun t D => ∃ δ, m.holds t δ ∧ m.view δ = D)
  case hi =>
    intro t _ quad ⟨δ, h, hv⟩
    refine ⟨_, hb.insert quad h, ?_⟩
    rw [ReadableBackend.Reading.view, DatasetDelta.patch_comp, DatasetDelta.patch_insert, ← hv]
    rfl
  case hr =>
    intro t _ quad ⟨δ, h, hv⟩
    refine ⟨_, hb.removeEncoded h (b.encoder.isQuad_encodeQuad quad), ?_⟩
    rw [ReadableBackend.Reading.view, DatasetDelta.patch_comp, DatasetDelta.patch_remove, ← hv]
    rfl
  case h => exact ⟨δ, h, rfl⟩

-- Which quad of the dataset a mutation is about, and whether it is in there afterwards.
def DeleteInsertQuad.write (enc : Encoder) : DeleteInsertQuad → EncodedQuad × Bool
  | .delete quad => ((enc.encodeQuad quad).canonical, false)
  | .insert quad => ((enc.encodeQuad quad).canonical, true)

theorem quads_mutate {mutations : List DeleteInsertQuad} {S : Dataset} :
    (mutations.foldl (Dataset.target enc).mutate S).quads =
      (Delta.ofList <| mutations.map (·.write enc)).patch S.quads := by
  induction mutations generalizing S
  case nil => simp [Delta.ofList]
  case cons mutation mutations hi =>
    rw [List.foldl_cons, hi, List.map_cons, Delta.ofList, Delta.patch_comp]
    cases mutation <;>
      simp [Target.mutate, DeleteInsertQuad.write, Dataset.target, Dataset.insert, Dataset.remove]

-- The quads which a solution makes of the templates.
namespace Row

variable (enc : Encoder)

def deletes (delete : List GroundQuadPattern) (row : Row) : List EncodedQuad :=
  (delete.filterMap row.fillGroundQuadPattern).map fun quad => (enc.encodeQuad quad).canonical

def inserts (insert : List QuadPattern) (row : Row) : List EncodedQuad :=
  (insert.filterMap row.fillQuadPattern).map fun quad => (enc.encodeQuad quad).canonical

end Row

def deleted (enc : Encoder) (delete : List GroundQuadPattern) (rows : List Row) : Set EncodedQuad :=
  { q | ∃ row ∈ rows, q ∈ row.deletes enc delete }

def inserted (enc : Encoder) (insert : List QuadPattern) (rows : List Row) : Set EncodedQuad :=
  { q | ∃ row ∈ rows, q ∈ row.inserts enc insert }

theorem writes_eq_blocks {rows : List Row} :
    (rows.flatMap (DeleteInsertIter.fill delete insert)).map (·.write enc) =
      Delta.blocks (Row.deletes enc delete) (Row.inserts enc insert) rows := by
  simp only [Delta.blocks, List.map_flatMap, DeleteInsertIter.fill, Row.deletes, Row.inserts,
    List.map_append, List.map_map]
  rfl

-- Each solution that deletes the quad comes before one that inserts it, or inserts it itself.
def InsertedLast (enc : Encoder) (delete : List GroundQuadPattern) (insert : List QuadPattern)
    (rows : List Row) (q : EncodedQuad) : Prop :=
  ∀ rows₁ row rows₂, rows = rows₁ ++ row :: rows₂ → q ∈ row.deletes enc delete →
    ∃ row' ∈ row :: rows₂, q ∈ row'.inserts enc insert

variable (enc delete insert) in
theorem quads_evalDeleteInsert (rows : List Row) (S : Dataset) :
    ∃ S', (Dataset.target enc).evalDeleteInsert delete insert (rows.map .ok) S = (.ok (), S') ∧
      (S'.quads = S.quads \ deleted enc delete rows ∪ inserted enc insert rows ↔
        ∀ q ∈ inserted enc insert rows, InsertedLast enc delete insert rows q) := by
  refine ⟨_, by rw [Target.evalDeleteInsert, DeleteInsertIter.collect_eq], ?_⟩
  have hd : deleted enc delete rows =
    { q | (q, false) ∈ Delta.blocks (Row.deletes enc delete) (Row.inserts enc insert) rows } :=
    Set.ext fun _ => Delta.mem_blocks_false.symm
  have hi : inserted enc insert rows =
    { q | (q, true) ∈ Delta.blocks (Row.deletes enc delete) (Row.inserts enc insert) rows } :=
    Set.ext fun _ => Delta.mem_blocks_true.symm
  rw [quads_mutate, writes_eq_blocks, hd, hi, Delta.patch_ofList_eq_iff]
  apply forall₂_congr
  intro q hq
  rw [Delta.ofList_blocks_eq_true_iff]
  exact and_iff_right <| Delta.mem_blocks_true.mp hq

-- If a solution deletes a quad, then the order in which it comes last is the worst one.
theorem forall_perm_insertedLast {rows : List Row} :
    (∀ rows' : List Row, rows'.Perm rows →
      ∀ q ∈ inserted enc insert rows', InsertedLast enc delete insert rows' q) ↔
    ∀ row ∈ rows, ∀ q ∈ row.deletes enc delete, q ∈ inserted enc insert rows →
      q ∈ row.inserts enc insert where
  mp h row hr q hd hi := by
    obtain ⟨rows₁, rows₂, rfl⟩ := List.append_of_mem hr
    have hp : (rows₁ ++ rows₂ ++ [row]).Perm (rows₁ ++ row :: rows₂) := by
      simpa using (List.perm_append_singleton row rows₂).append_left rows₁
    have ⟨row', hr', hi'⟩ := hi
    have ⟨row₁, hr₁, hi₁⟩ := h _ hp q ⟨row', hp.mem_iff.mpr hr', hi'⟩ _ row [] rfl hd
    exact List.mem_singleton.mp hr₁ ▸ hi₁
  mpr h rows' hp q hi rows₁ row rows₂ he hd := by
    have ⟨row', hr', hi'⟩ := hi
    have hr : row ∈ rows := hp.mem_iff.mp (by simp [he])
    exact ⟨row, .head _, h row hr q hd ⟨row', hp.mem_iff.mp hr', hi'⟩⟩

-- The mutations are applied solution by solution. All deletions seem to come before all insertions
-- iff no solution deletes a quad for good that an earlier one inserted.
theorem evalDeleteInsert_eq_iff (enc : Encoder) (delete : List GroundQuadPattern)
    (insert : List QuadPattern) (rows : List Row) (S : Dataset) :
    (∃ S', (Dataset.target enc).evalDeleteInsert delete insert (rows.map .ok) S = (.ok (), S') ∧
      (S'.quads = S.quads \ deleted enc delete rows ∪ inserted enc insert rows ↔
        ∀ q ∈ inserted enc insert rows, InsertedLast enc delete insert rows q)) ∧
    ((∀ rows' : List Row, rows'.Perm rows → ∃ S',
      (Dataset.target enc).evalDeleteInsert delete insert (rows'.map .ok) S = (.ok (), S') ∧
      S'.quads = S.quads \ deleted enc delete rows ∪ inserted enc insert rows) ↔
      ∀ row ∈ rows, ∀ q ∈ row.deletes enc delete, q ∈ inserted enc insert rows →
        q ∈ row.inserts enc insert) := by
  refine ⟨quads_evalDeleteInsert enc delete insert rows S, ?_⟩
  refine forall_perm_insertedLast.symm.trans ?_ |>.symm
  apply forall₂_congr
  intro rows' hp
  have hd : deleted enc delete rows' = deleted enc delete rows := by
    simp only [deleted, hp.mem_iff]
  have hi : inserted enc insert rows' = inserted enc insert rows := by
    simp only [inserted, hp.mem_iff]
  have ⟨S', he, h⟩ := quads_evalDeleteInsert enc delete insert rows' S
  rw [← h, hd, hi, he]
  simp

-- Swaps the ends of all edges.
def swapDelete : List GroundQuadPattern :=
  [⟨.var "s", .namedNode "http://example.com/p", .var "o", .defaultGraph⟩]

def swapInsert : List QuadPattern :=
  [⟨.var "o", .namedNode "http://example.com/p", .var "s", .defaultGraph⟩]

def swapEdge (subject object : BitVec 128) : Rdf.Quad where
  subject   := .blankNode (.anonymous subject)
  predicate := "http://example.com/p"
  object    := .blankNode (.anonymous object)
  graphName := .defaultGraph

def swapRow (subject object : BitVec 128) : Row where
  solution v := if v = "s" then some (.blankNode (.anonymous subject)) else
    if v = "o" then some (.blankNode (.anonymous object)) else none
  bnodes := id

def swapDataset : Dataset where
  quads       := { (Encoder.plain.encodeQuad (swapEdge 1 2)).canonical,
    (Encoder.plain.encodeQuad (swapEdge 2 1)).canonical }
  namedGraphs := ∅

-- An edge in both directions should remain as it is. The second solution deletes what the first
-- one inserted.
theorem evalDeleteInsert_loses_edge :
    ¬∃ S', (Dataset.target .plain).evalDeleteInsert swapDelete swapInsert
        ([swapRow 1 2, swapRow 2 1].map .ok) swapDataset = (.ok (), S') ∧
      S'.quads = swapDataset.quads \ deleted .plain swapDelete [swapRow 1 2, swapRow 2 1] ∪
        inserted .plain swapInsert [swapRow 1 2, swapRow 2 1] := by
  intro ⟨S', he, hq⟩
  have ⟨_, he', h⟩ := quads_evalDeleteInsert .plain swapDelete swapInsert
    [swapRow 1 2, swapRow 2 1] swapDataset
  obtain rfl := (Prod.mk.inj <| he.symm.trans he').right
  let q := (Encoder.plain.encodeQuad (swapEdge 2 1)).canonical
  have hi : q ∈ (swapRow 1 2).inserts .plain swapInsert := by decide
  have hd : q ∈ (swapRow 2 1).deletes .plain swapDelete := by decide
  have ⟨row, hr, hl⟩ := h.mp hq _ ⟨_, .head _, hi⟩ [swapRow 1 2] _ [] rfl hd
  obtain rfl := List.mem_singleton.mp hr
  exact absurd hl (by decide)

end Sparql
