import OxigraphCloud.Coprocessor.Filter
import OxigraphCloud.Coprocessor.Theorems.Navigation

-- The terms of keys as filters and scans see them.
namespace Coprocessor

section

variable {ts : List EncodedTerm} {t : EncodedTerm}

theorem lt_length_writeTerm (ht : t.IsTerm) (before rest : Bytes) :
    ¬(before ++ (writeTerm t ++ rest)).length ≤ before.length := by
  have hl : 0 < (writeTerm t).length := List.length_pos_iff.mpr ht.writeTerm_ne_nil
  simp only [List.length_append]
  omega

-- What follows behind the terms of a key does not matter.
theorem extractTermBytesFrom_append (h : ∀ t ∈ ts, t.IsTerm) (ht : ts[i]? = some t)
    (before rest : Bytes) :
    extractTermBytesFrom (before ++ (ts.flatMap writeTerm ++ rest)) before.length i =
      pure (writeTerm t) := by
  induction i generalizing ts before <;> cases ts
  case zero.nil | succ.nil => cases ht
  case zero.cons u us =>
    obtain rfl : u = t := Option.some.inj ht
    obtain ⟨hu, _⟩ := List.forall_mem_cons.mp h
    rw [extractTermBytesFrom, List.flatMap_cons, List.append_assoc]
    simp only [lt_length_writeTerm hu, if_false, pure_bind, List.drop_left,
      encodedTermLen_append hu, Checked.slice_append]
  case succ.cons i hi u us =>
    obtain ⟨hu, hus⟩ := List.forall_mem_cons.mp h
    have hr := hi hus ht (before ++ writeTerm u)
    rw [List.append_assoc, List.length_append] at hr
    rw [extractTermBytesFrom, List.flatMap_cons, List.append_assoc]
    simp only [lt_length_writeTerm hu, if_false, pure_bind, List.drop_left,
      encodedTermLen_append hu, hr]

end

namespace Checked

theorem ok_bind (x : Checked ε α) (f : α → Checked ε β) : (x >>= f).ok = x.ok >>= (f · |>.ok) := by
  rcases x with - | ⟨- | _⟩ <;> rfl

end Checked

-- Filters find the same terms.
theorem extractTermAtFrom_eq (key : Bytes) (offset position : ℕ) :
    extractTermAtFrom key offset position = (extractTermBytesFrom key offset position).ok := by
  induction position generalizing offset
  case zero =>
    rw [extractTermAtFrom, extractTermBytesFrom]
    split
    case isTrue => rfl
    case isFalse => rw [Checked.ok_bind]
  case succ hi =>
    rw [extractTermAtFrom, extractTermBytesFrom]
    split
    case isTrue => rfl
    case isFalse => simp only [Checked.ok_bind, hi]

theorem extractTermAt_eq (key : Bytes) (position : ℕ) :
    extractTermAt key position = (extractTermBytes key position).ok :=
  extractTermAtFrom_eq key 0 position

variable {ts : List EncodedTerm} {t : EncodedTerm}

theorem extractTermBytes_append (h : ∀ t ∈ ts, t.IsTerm) (ht : ts[i]? = some t) (rest : Bytes) :
    extractTermBytes (ts.flatMap writeTerm ++ rest) i = pure (writeTerm t) :=
  extractTermBytesFrom_append h ht [] rest

theorem extractConcatTermBytes_append {positions : List ℕ} (h : ∀ t ∈ ts, t.IsTerm)
    (hp : positions.mapM (ts[·]?) = some us) (rest : Bytes) :
    extractConcatTermBytes (ts.flatMap writeTerm ++ rest) positions =
      pure (us.flatMap writeTerm) := by
  suffices hs : ∀ result : Bytes,
      positions.foldlM (fun result position => do
        return result ++ (← extractTermBytes (ts.flatMap writeTerm ++ rest) position)) result =
          (pure (result ++ us.flatMap writeTerm) : Checked String Bytes) by
    exact hs []
  induction positions generalizing us
  case nil =>
    obtain rfl : us = [] := (Option.some.inj hp).symm
    simp
  case cons position positions hi =>
    intro result
    simp only [List.mapM_cons, Option.bind_eq_bind, Option.bind_eq_some_iff] at hp
    obtain ⟨t, ht, us', hps, hu⟩ := hp
    obtain rfl : us = t :: us' := (Option.some.inj hu).symm
    rw [List.foldlM_cons, extractTermBytes_append h ht]
    simp only [pure_bind]
    rw [hi hps, List.flatMap_cons, List.append_assoc]

theorem terms_flatMap_writeTerm (e : QuadEncoding) (q : EncodedQuad) :
    (e.positions.map q.term).flatMap writeTerm = e.writer q := by
  rw [QuadEncoding.writer_eq, List.flatMap_map]
  rfl

-- The plugin cuts keys into the terms that the encoder has written.
theorem navigates (h : ∀ t ∈ ts, t.IsTerm) (rest : Bytes) (e : QuadEncoding) (q : EncodedQuad)
    (hq : e.Indexes q) :
    (∀ t ∈ ts.head?, encodedTermLen (ts.flatMap writeTerm ++ rest) = pure (writeTerm t).length) ∧
    (∀ i t, ts[i]? = some t →
      extractTermBytes (ts.flatMap writeTerm ++ rest) i = pure (writeTerm t) ∧
      extractTermAt (ts.flatMap writeTerm ++ rest) i = pure (writeTerm t)) ∧
    (∀ positions us, positions.mapM (ts[·]?) = some us →
      extractConcatTermBytes (ts.flatMap writeTerm ++ rest) positions =
        pure (us.flatMap writeTerm)) ∧
    (∀ i p, e.positions[i]? = some p →
      extractTermBytes (e.writer q) i = pure (writeTerm (q.term p)) ∧
      extractTermAt (e.writer q) i = pure (writeTerm (q.term p))) ∧
    ∀ positions ts, positions.mapM ((e.positions.map q.term)[·]?) = some ts →
      extractConcatTermBytes (e.writer q) positions = pure (ts.flatMap writeTerm) := by
  have hat {ts : List EncodedTerm} {rest : Bytes} (h : ∀ t ∈ ts, t.IsTerm) i t
      (ht : ts[i]? = some t) :
      extractTermBytes (ts.flatMap writeTerm ++ rest) i = pure (writeTerm t) ∧
      extractTermAt (ts.flatMap writeTerm ++ rest) i = pure (writeTerm t) := by
    rw [extractTermAt_eq, extractTermBytes_append h ht]
    exact ⟨rfl, rfl⟩
  have hi : ∀ t ∈ e.positions.map q.term, t.IsTerm := by
    intro t ht
    obtain ⟨p, hp, rfl⟩ := List.mem_map.mp ht
    exact hq.isTerm hp
  have hw : (e.positions.map q.term).flatMap writeTerm ++ [] = e.writer q := by
    rw [List.append_nil, terms_flatMap_writeTerm]
  refine ⟨?_, hat h, fun _ _ hp => extractConcatTermBytes_append h hp rest, ?_, ?_⟩
  case refine_1 =>
    cases ts
    case nil => nofun
    case cons u us =>
      intro t ht
      obtain rfl : u = t := Option.some.inj ht
      rw [List.flatMap_cons, List.append_assoc]
      exact encodedTermLen_append (h u List.mem_cons_self) _
  case refine_2 =>
    intro i p hp
    have ht : (e.positions.map q.term)[i]? = some (q.term p) := by simp [hp]
    exact hw ▸ hat hi i (q.term p) ht
  case refine_3 =>
    intro positions ts hp
    exact hw ▸ extractConcatTermBytes_append hi hp []

def nestedTerm : EncodedTerm :=
  .triple (.namedNode ⟨.replicate 16 0⟩) (.namedNode ⟨.replicate 16 1⟩)
    (.triple (.namedNode ⟨.replicate 16 2⟩) (.namedNode ⟨.replicate 16 3⟩)
      (.booleanLiteral true))

def nestedQuad : EncodedQuad where
  subject   := .namedNode ⟨.replicate 16 0⟩
  predicate := .namedNode ⟨.replicate 16 1⟩
  object    := nestedTerm
  graphName := .defaultGraph

theorem navigates_nested :
    extractTermAt (([.booleanLiteral true, nestedTerm] : List EncodedTerm).flatMap writeTerm ++ [7])
      1 = pure (writeTerm nestedTerm) ∧
    extractTermBytes (QuadEncoding.dosp.writer nestedQuad) 0 = pure (writeTerm nestedTerm) := by
  have ht : ∀ t ∈ ([.booleanLiteral true, nestedTerm] : List EncodedTerm), t.IsTerm := by
    simp [EncodedTerm.IsTerm, nestedTerm]
  have hq : QuadEncoding.dosp.Indexes nestedQuad := {
    isQuad := by constructor <;> simp [nestedQuad, nestedTerm, EncodedTerm.IsTerm]
    graph  := iff_of_true rfl rfl }
  have hn := navigates ht [7] .dosp nestedQuad hq
  exact ⟨(hn.2.1 1 nestedTerm rfl).2, (hn.2.2.2.1 0 .object rfl).1⟩

end Coprocessor
