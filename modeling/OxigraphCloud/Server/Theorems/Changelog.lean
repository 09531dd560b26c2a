import OxigraphCloud.Server.Theorems.Transactions

theorem parseU64_toString (id : UInt64) : parseU64 (toString id) = some id := by
  have hl : (toString id).toList = Nat.toDigits 10 id.toNat := Nat.toList_repr
  have hd : ∀ c ∈ Nat.toDigits 10 id.toNat, c.isDigit = true := fun c hc =>
    Nat.isDigit_of_mem_toDigits (by decide) (by decide) hc
  have hs : dropPlus (Nat.toDigits 10 id.toNat) = Nat.toDigits 10 id.toNat := by
    rw [dropPlus.eq_def]
    split
    case h_1 h => exact absurd (hd '+' (by rw [h]; exact .head _)) (by decide)
    case h_2 => rfl
  have ho : Nat.ofDigitChars 10 (Nat.toDigits 10 id.toNat) 0 = id.toNat :=
    Nat.ofDigitChars_toDigits (by decide) (by decide)
  have hn : Nat.toDigits 10 id.toNat ≠ [] := Nat.toDigits_ne_nil
  simp only [parseU64, hl, hs, ho]
  rw [if_pos ⟨hn, List.all_eq_true.mpr hd⟩, if_pos id.toNat_lt, UInt64.ofNat_toNat]

theorem append_right_injective (pre : String) : Function.Injective (pre ++ ·) := by
  intro str str' h
  have h := congrArg String.toList h
  simp only [String.toList_append] at h
  exact String.toList_injective <| List.append_cancel_left h

theorem ChangelogEntry.subject_injective : Function.Injective subject := by
  intro id id' h
  have h : toString id = toString id' := append_right_injective _ h
  exact Option.some.inj <| (parseU64_toString id).symm.trans <| h ▸ parseU64_toString id'

namespace Changelog.Details

variable {d : Details} {quads : List Rdf.Quad}

-- A field that `get` takes from the quads with a certain predicate.
structure Reads (field : Details → β) (predicate : Rdf.NamedNode) (f : String → β) : Prop where
  literal : ∀ {d : Details} {q : Rdf.Quad} {l}, q.predicate = predicate → q.object = .literal l →
    field (d.read q) = f l.value
  other   : ∀ {d : Details} {q : Rdf.Quad}, q.predicate ≠ predicate → field (d.read q) = field d

theorem reads_timestamp : Reads timestamp "urn:oxigraph:timestamp" id where
  literal hp ho := by simp [read, hp, ho]
  other hp      := by rw [read]; split <;> [split_ifs; skip] <;> first | rfl | contradiction

theorem reads_operation : Reads operation "urn:oxigraph:operation" id where
  literal hp ho := by simp [read, hp, ho]
  other hp      := by rw [read]; split <;> [split_ifs; skip] <;> rfl

theorem reads_undoable : Reads undoable "urn:oxigraph:undoable" (decide <| · = "true") where
  literal hp ho := by simp [read, hp, ho]
  other hp      := by rw [read]; split <;> [split_ifs; skip] <;> rfl

theorem reads_insertedNq : Reads insertedNq "urn:oxigraph:insertedNQuads" id where
  literal hp ho := by simp [read, hp, ho]
  other hp      := by rw [read]; split <;> [split_ifs; skip] <;> rfl

theorem reads_removedNq : Reads removedNq "urn:oxigraph:removedNQuads" id where
  literal hp ho := by simp [read, hp, ho]
  other hp      := by rw [read]; split <;> [split_ifs; skip] <;> rfl

-- The order of the quads does not matter if they agree.
theorem Reads.foldl {field : Details → β} (hr : Reads field predicate f)
    (h : ∀ q ∈ quads, q.predicate = predicate → q.object = .literal (.string v)) :
    field (quads.foldl read d) = if ∃ q ∈ quads, q.predicate = predicate then f v else field d := by
  induction quads generalizing d
  case nil => simp
  case cons q quads hi =>
    rw [List.foldl_cons, hi fun q hq => h q (.tail _ hq)]
    by_cases hp : q.predicate = predicate
    case pos => simp [hp, hr.literal hp (h q (.head _) hp), Rdf.Literal.value]
    case neg => simp [hp, hr.other hp]

end Changelog.Details

-- A list of quads after it has been written to the store and read back.
def Services.reread (sv : Services) (quads : List Rdf.Quad) : List Rdf.Quad :=
  if quads = [] then [] else sv.parseNquads (sv.quadsToNquads quads)

namespace ChangelogEntry

variable {sv : Services} {e : ChangelogEntry} {q : Rdf.Quad}

-- What `get` makes of an entry that has been written to the store.
def stored (sv : Services) (e : ChangelogEntry) : ChangelogEntry :=
  { e with inserted := sv.reread e.inserted, removed := sv.reread e.removed }

theorem mem_quads : q ∈ e.quads sv ↔ q.subject = .namedNode (subject e.id) ∧
    q.graphName = .namedNode changelogGraph ∧ (q.predicate, q.object) ∈ e.facts sv := by
  simp only [quads, List.mem_map, Prod.exists]
  constructor
  · intro ⟨_, _, h, he⟩
    subst he
    exact ⟨rfl, rfl, h⟩
  · intro ⟨hs, hg, h⟩
    exact ⟨_, _, h, by simp [← hs, ← hg]⟩

-- The values of the fields that `get` looks at.
theorem object_of_mem_quads (h : q ∈ e.quads sv) :
    (q.predicate = "urn:oxigraph:timestamp" → q.object = simpleLiteral e.timestamp) ∧
    (q.predicate = "urn:oxigraph:operation" → q.object = simpleLiteral e.operation) ∧
    (q.predicate = "urn:oxigraph:undoable" → q.object = simpleLiteral (toString e.undoable)) ∧
    (q.predicate = "urn:oxigraph:insertedNQuads" →
      q.object = simpleLiteral (sv.quadsToNquads e.inserted)) ∧
    (q.predicate = "urn:oxigraph:removedNQuads" →
      q.object = simpleLiteral (sv.quadsToNquads e.removed)) ∧
    (q.predicate = "urn:oxigraph:txnId" → q.object = simpleLiteral (toString e.id)) := by
  have h := (mem_quads.mp h).right.right
  refine ⟨?_, ?_, ?_, ?_, ?_, ?_⟩ <;>
  · intro hp
    simp only [facts, hp, List.mem_append, List.mem_cons, Prod.mk.injEq, String.reduceEq, false_and,
      true_and, and_false, or_false, false_or, List.not_mem_nil, List.mem_ite_nil_left] at h
    first | exact h | exact h.right

theorem quads_ne_nil (sv : Services) (e : ChangelogEntry) : e.quads sv ≠ [] := by
  simp [quads, facts]

theorem exists_mem_quads {p : Rdf.NamedNode} :
    (∃ q ∈ e.quads sv, q.predicate = p) ↔ ∃ o, (p, o) ∈ e.facts sv := by
  simp only [quads, List.mem_map, Prod.exists]
  constructor
  · intro ⟨_, ⟨_, o, h, hq⟩, hp⟩
    exact ⟨o, by subst hq hp; exact h⟩
  · intro ⟨o, h⟩
    exact ⟨_, ⟨p, o, h, rfl⟩, rfl⟩

end ChangelogEntry

namespace Changelog

variable {sv : Services} {c : Changelog} {s : Store} {e : ChangelogEntry}

open ChangelogEntry in
theorem Details.foldl_of_mem_iff {quads : List Rdf.Quad} (h : ∀ q, q ∈ quads ↔ q ∈ e.quads sv) :
    quads.foldl read .empty = {
      timestamp  := e.timestamp
      operation  := e.operation
      undoable   := e.undoable
      insertedNq := if e.inserted = [] then "" else sv.quadsToNquads e.inserted
      removedNq  := if e.removed = [] then "" else sv.quadsToNquads e.removed
    } := by
  have ho {q} (hq : q ∈ quads) := object_of_mem_quads <| (h q).mp hq
  have he {p} : (∃ q ∈ quads, q.predicate = p) ↔ ∃ o, (p, o) ∈ e.facts sv := by
    simp only [h, exists_mem_quads]
  ext1
  · rw [reads_timestamp.foldl fun q hq => (ho hq).1]
    simp [he, facts]
  · rw [reads_operation.foldl fun q hq => (ho hq).2.1]
    simp [he, facts]
  · rw [reads_undoable.foldl fun q hq => (ho hq).2.2.1]
    cases e.undoable <;> simp [he, facts] <;> decide
  · rw [reads_insertedNq.foldl fun q hq => (ho hq).2.2.2.1]
    by_cases hn : e.inserted = [] <;> simp [he, facts, hn, Details.empty]
  · rw [reads_removedNq.foldl fun q hq => (ho hq).2.2.2.2.1]
    by_cases hn : e.removed = [] <;> simp [he, facts, hn, Details.empty]

theorem get_of_about (hc : c.enabled) (h : s.about e.id = (e.quads sv).toFinset) :
    c.get sv s e.id = .ok (some (e.stored sv)) := by
  have hm q : q ∈ sv.scan (s.changelogQuads (some (ChangelogEntry.subject e.id)) none) ↔
      q ∈ e.quads sv := by
    rw [sv.mem_scan, ← Store.about, h, List.mem_toFinset]
  have hd := Details.foldl_of_mem_iff hm
  rw [get, if_neg (by simp [hc])]
  generalize sv.scan _ = quads at *
  split
  case h_1 =>
    have ⟨q, hq⟩ := List.exists_mem_of_ne_nil _ <| e.quads_ne_nil sv
    exact absurd ((hm q).mpr hq) List.not_mem_nil
  case h_2 =>
    rw [hd, ChangelogEntry.stored, Services.reread, Services.reread]
    by_cases hi : e.inserted = [] <;> by_cases hr : e.removed = [] <;>
      simp [hi, hr, Services.parseNquads]

section Prune

variable {id cutoffId : UInt64} {q : Rdf.Quad}

theorem mem_about : q ∈ s.about id ↔ q ∈ s.quads ∧
    q.subject = .namedNode (ChangelogEntry.subject id) ∧
      q.graphName = .namedNode changelogGraph := by
  simp [Store.about, Store.changelogQuads]

theorem mem_oldSubjects {node : Rdf.NamedNode} : node ∈ oldSubjects sv s cutoffId ↔
    ∃ q ∈ s.quads, q.subject = .namedNode node ∧ q.graphName = .namedNode changelogGraph ∧
      q.predicate = "urn:oxigraph:txnId" ∧ ∃ id ∈ txnId q, id ≤ cutoffId := by
  simp only [oldSubjects, txnIdQuads, List.mem_filterMap, sv.mem_scan, Store.changelogQuads,
    Finset.mem_filter]
  constructor
  · intro ⟨q, ⟨hq, _, hp, hg⟩, h⟩
    split at h
    case h_1 id node' hi hs =>
      split_ifs at h with hc
      cases h
      exact ⟨q, hq, hs, hg, hp _ rfl, id, hi, hc⟩
    case h_2 => contradiction
  · intro ⟨q, hq, hs, hg, hp, id, hi, hc⟩
    refine ⟨q, ⟨hq, nofun, fun _ h => by cases h; exact hp, hg⟩, ?_⟩
    simp [Option.mem_def.mp hi, hs, hc]

-- What pruning after the entry `id` can do: it removes all quads about some old entries.
inductive Pruned (sv : Services) (c : Changelog) (id : UInt64) (s : Store) : Store → Prop
  | none : Pruned sv c id s s
  | old : 0 < c.retain → c.retain < id → (∀ q, q ∈ s'.quads ↔ q ∈ s.quads ∧
      ¬∃ node ∈ oldSubjects sv s (id - c.retain),
        q.subject = .namedNode node ∧ q.graphName = .namedNode changelogGraph) → Pruned sv c id s s'

theorem prune_pruned (sv : Services) (am : Ambient) (id : UInt64) (s : Store) (hc : 0 < c.retain) :
    Pruned sv c id s (c.prune sv am id s).2 := by
  rw [prune]
  split
  case isTrue => exact .none
  case isFalse hr =>
    split
    case h_1 => exact .none
    case h_2 =>
      obtain ⟨_, h⟩ | ⟨s', h, hs⟩ := s.transact_cases (am.faults .prune) ChangelogError.internal _
      · rw [h]
        exact .none
      · refine .old hc (UInt64.not_le.mp hr) fun q => ?_
        rw [h, ← Except.ok.inj hs, Store.mem_removeAll, and_comm]
        refine and_congr_right fun hq => not_congr ?_
        simp [sv.mem_scan, Store.changelogQuads, hq]

namespace Pruned

variable {s' : Store} (h : Pruned sv c id s s')

include h

theorem mem_of_outside (hq : q.graphName ≠ .namedNode changelogGraph) :
    q ∈ s'.quads ↔ q ∈ s.quads := by
  cases h
  case none => rfl
  case old hm => simp [hm, hq]

theorem subset : s'.quads ⊆ s.quads := by
  cases h
  case none => exact Finset.Subset.refl _
  case old hm => exact fun q hq => ((hm q).mp hq).left

-- The quads about an entry stay or go together.
theorem about (id' : UInt64) : s'.about id' = s.about id' ∨
    s'.about id' = ∅ ∧ 0 < c.retain ∧ c.retain < id ∧
      ChangelogEntry.subject id' ∈ oldSubjects sv s (id - c.retain) := by
  cases h
  case none => exact .inl rfl
  case old h₀ hr h =>
    by_cases hm : ChangelogEntry.subject id' ∈ oldSubjects sv s (id - c.retain)
    case pos =>
      refine .inr ⟨Finset.eq_empty_of_forall_notMem fun q hq => ?_, h₀, hr, hm⟩
      have ⟨hq, hs, hg⟩ := mem_about.mp hq
      exact ((h q).mp hq).right ⟨_, hm, hs, hg⟩
    case neg =>
      left
      ext q
      rw [mem_about, mem_about, h, and_assoc]
      refine and_congr_right fun _ => and_iff_right_of_imp fun ⟨hs, _⟩ ⟨node, hn, hs', _⟩ => hm ?_
      cases hs.symm.trans hs'
      exact hn

end Pruned

end Prune

section Record

variable {ops : List BufferedOp} {operation : String} {id : UInt64} {q : Rdf.Quad}

-- Everything that recording can do.
inductive Recorded (sv : Services) (am : Ambient) (ops : List BufferedOp) (operation : String)
    (c : Changelog) (s : Store) : Except ChangelogError ChangelogEntry × Changelog × Store → Prop
  | refused : (am.faults .entry).isNone = false →
      Recorded sv am ops operation c s (.error err, { c with counter := c.counter + 1 }, s)
  | failed : (am.faults .entry).isNone →
      Pruned sv c c.counter (s.insertAll ((c.entry am ops operation).quads sv)) s' →
      Recorded sv am ops operation c s (.error err, { c with counter := c.counter + 1 }, s')
  | ok : (am.faults .entry).isNone →
      Pruned sv c c.counter (s.insertAll ((c.entry am ops operation).quads sv)) s' →
      Recorded sv am ops operation c s (.ok (c.entry am ops operation),
        { c with counter := c.counter + 1 }.send (c.entry am ops operation).toEvent, s')

theorem record_recorded (sv : Services) (am : Ambient) (ops : List BufferedOp) (operation : String)
    (s : Store) (hc : c.enabled) :
    Recorded sv am ops operation c s (c.record sv am ops operation s) := by
  rw [record, if_neg (by simp [hc])]
  cases hf : (am.faults .entry).isNone
  case false =>
    obtain ⟨_, h⟩ : ∃ e, writeEntryToStore sv am (c.entry am ops operation) s = (.error e, s) :=
      Store.transact_of_not_isNone hf
    simp only [h]
    exact .refused hf
  case true =>
    have h : writeEntryToStore sv am (c.entry am ops operation) s = (.ok (), _) :=
      Store.transact_of_isNone hf rfl
    simp only [h]
    split
    case isTrue hr =>
      have hp := prune_pruned sv am c.counter (s.insertAll ((c.entry am ops operation).quads sv)) hr
      split <;> rename_i h' <;> rw [show c.prune sv am c.counter _ = _ from h'] at hp
      case h_1 => exact .failed hf hp
      case h_2 => exact .ok hf hp
    case isFalse => exact .ok hf .none

theorem record_ok (h : c.record sv am ops operation s = (.ok e, c', s')) :
    c.enabled ∧ e = c.entry am ops operation ∧
    c' = { c with counter := c.counter + 1 }.send e.toEvent ∧
    Pruned sv c e.id (s.insertAll (e.quads sv)) s' := by
  cases hc : c.enabled
  case false =>
    rw [record, if_pos (by simp [hc])] at h
    exact nomatch (Prod.mk.inj h).left
  case true =>
    have hr := record_recorded sv am ops operation s hc
    rw [h] at hr
    cases hr
    case ok hp => exact ⟨rfl, rfl, by rw [← hc], hp⟩

theorem Pruned.insertAll_quads {s' : Store} (h : Pruned sv c id (s.insertAll (e.quads sv)) s')
    (hq : q.graphName ≠ .namedNode changelogGraph) : q ∈ s'.quads ↔ q ∈ s.quads := by
  rw [h.mem_of_outside hq, Store.mem_insertAll, or_iff_right]
  exact fun hm => hq (ChangelogEntry.mem_quads.mp hm).right.left

-- Recording only touches the graph of the changelog.
theorem mem_record_of_outside (hq : q.graphName ≠ .namedNode changelogGraph) :
    q ∈ (c.record sv am ops operation s).2.2.quads ↔ q ∈ s.quads := by
  cases hc : c.enabled
  case false => rw [record, if_pos (by simp [hc])]
  case true =>
    have hr := record_recorded sv am ops operation s hc
    generalize c.record sv am ops operation s = result at *
    cases hr
    case refused => rfl
    case failed hp => exact hp.insertAll_quads hq
    case ok hp => exact hp.insertAll_quads hq

theorem about_insertAll_quads : (s.insertAll (e.quads sv)).about e.id =
    (e.quads sv).toFinset ∪ s.about e.id := by
  ext q
  simp only [mem_about, Store.mem_insertAll, Finset.mem_union, List.mem_toFinset, or_and_right]
  refine or_congr_left <| and_iff_left_of_imp fun h => ?_
  obtain ⟨hs, hg, _⟩ := ChangelogEntry.mem_quads.mp h
  exact ⟨hs, hg⟩

theorem about_insertAll_quads_of_ne (h : id ≠ e.id) :
    (s.insertAll (e.quads sv)).about id = s.about id := by
  ext q
  simp only [mem_about, Store.mem_insertAll, or_and_right, or_iff_right_iff_imp]
  rintro ⟨hm, hs, _⟩
  have hs' := (ChangelogEntry.mem_quads.mp hm).left
  exact absurd (ChangelogEntry.subject_injective <| by simpa using hs.symm.trans hs') h

-- An entry is not old as long as the quads about it are its own.
theorem Pruned.about_self {s s' : Store} (h : Pruned sv c e.id s s')
    (ha : s.about e.id = (e.quads sv).toFinset) : s'.about e.id = (e.quads sv).toFinset := by
  obtain h | ⟨_, h₀, hr, hm⟩ := h.about e.id
  · exact h.trans ha
  · have ⟨q, hq, hs, hg, hp, id, hi, hc⟩ := mem_oldSubjects.mp hm
    have hq : q ∈ e.quads sv := List.mem_toFinset.mp <| ha ▸ mem_about.mpr ⟨hq, hs, hg⟩
    have ho := (ChangelogEntry.object_of_mem_quads hq).2.2.2.2.2 hp
    rw [txnId, ho] at hi
    have hi : some id = some e.id := hi.symm.trans <| parseU64_toString e.id
    obtain rfl := Option.some.inj hi
    exact absurd hc <| UInt64.not_le.mpr <| UInt64.sub_lt h₀ (UInt64.le_of_lt hr)

-- If there was nothing about its id before, an entry is read as it has been recorded.
theorem get_of_record (h : c.record sv am ops operation s = (.ok e, c', s'))
    (hn : s.about e.id = ∅) : c'.get sv s' e.id = .ok (some (e.stored sv)) := by
  have ⟨hc, _, hc', hp⟩ := record_ok h
  refine get_of_about (hc' ▸ hc) <| hp.about_self ?_
  rw [about_insertAll_quads, hn, Finset.union_empty]

end Record

section NetChange

variable {ops : List BufferedOp} {s' : Store} {q : Rdf.Quad}

-- The operations without the SPARQL updates.
def batches (ops : List BufferedOp) : List BufferedOp := ops.filter (!isSparqlUpdate ·)

theorem insertedOf_batches : insertedOf (batches ops) = insertedOf ops := by
  induction ops
  case nil => rfl
  case cons op ops hi => cases op <;> simp_all [batches, insertedOf, isSparqlUpdate]

theorem removedOf_batches : removedOf (batches ops) = removedOf ops := by
  induction ops
  case nil => rfl
  case cons op ops hi => cases op <;> simp_all [batches, removedOf, isSparqlUpdate]

theorem any_batches : (batches ops).any isSparqlUpdate = false := by
  simp [batches]

theorem batches_eq_self (h : ops.any isSparqlUpdate = false) : batches ops = ops := by
  simpa [batches] using h

-- If inserting and removing always changes something, then the order of the batches does not
-- matter.
theorem mem_replayed_batches (hr : sv.replayOps (batches ops) s = .ok s')
    (hi : ∀ q ∈ insertedOf ops, q ∉ s.quads) (hd : ∀ q ∈ removedOf ops, q ∈ s.quads) :
    q ∈ s'.quads ↔ q ∈ insertedOf ops ∨ q ∈ s.quads ∧ q ∉ removedOf ops := by
  rw [← insertedOf_batches] at hi ⊢
  rw [← removedOf_batches] at hd ⊢
  by_cases hi' : q ∈ insertedOf (batches ops) <;> by_cases hd' : q ∈ removedOf (batches ops)
  · exact absurd (hd q hd') (hi q hi')
  · simp [hi', Services.mem_replayed_of_inserted any_batches hr hi' hd']
  · simp [hi', hd', Services.not_mem_replayed_of_removed any_batches hr hi' hd']
  · simp [hi', hd', Services.mem_replayed_of_unmentioned any_batches hr hi' hd']

theorem netChange_iff (sv : Services) :
    NetChange s s' (insertedOf ops) (removedOf ops) ↔
      (∀ q ∈ insertedOf ops, q ∉ s.quads) ∧ (∀ q ∈ removedOf ops, q ∈ s.quads) ∧
      ∃ s₁, sv.replayOps (batches ops) s = .ok s₁ ∧ s₁.quads = s'.quads := by
  have hb : (batches ops).any isSparqlUpdate = false := any_batches
  have ⟨s₁, hr, _⟩ := sv.replayOps_batches s hb
  constructor
  · intro ⟨hi, hd⟩
    have hi' q hq := ((hi q).mp hq).right
    have hd' q hq := ((hd q).mp hq).left
    refine ⟨hi', hd', s₁, hr, Finset.ext fun q => ?_⟩
    rw [mem_replayed_batches hr hi' hd', hi, hd]
    tauto
  · intro ⟨hi, hd, s₂, hr', hq⟩
    have hm {q} := hq ▸ mem_replayed_batches (q := q) hr' hi hd
    refine ⟨fun q => ?_, fun q => ?_⟩
    · have := hi q
      have := hd q
      rw [hm]
      tauto
    · have := hi q
      have := hd q
      rw [hm]
      tauto

-- A transaction that removes one quad and inserts another one twice.
def sampleRegistry : TransactionRegistry where
  txns    := Finmap.insert "1" ⟨[.removeQuads [letterQuad 'b'], .sparqlUpdate "a",
    .insertQuads [letterQuad 'a']], 0⟩ ∅
  timeout := 60

theorem lookup_sampleRegistry :
    sampleRegistry.txns.lookup "1" = some
      ⟨[.removeQuads [letterQuad 'b'], .sparqlUpdate "a", .insertQuads [letterQuad 'a']], 0⟩ :=
  Finmap.lookup_insert _

theorem commit_sampleRegistry (s : Store) : sampleRegistry.commit letterServices .plain "1" s =
    (.ok ⟨"1", [.removeQuads [letterQuad 'b'], .sparqlUpdate "a", .insertQuads [letterQuad 'a']]⟩,
      sampleRegistry.discard "1",
      ((s.remove (letterQuad 'b')).insert (letterQuad 'a')).insert (letterQuad 'a')) := by
  rw [TransactionRegistry.commit, lookup_sampleRegistry]
  rfl

end NetChange

end Changelog
