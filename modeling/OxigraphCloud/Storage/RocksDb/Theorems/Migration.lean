import OxigraphCloud.Primitives.Except
import OxigraphCloud.Storage.RocksDb.Migration
import OxigraphCloud.Storage.RocksDb.Theorems.Readable

-- The form of version 1, in which embedded triples have another type.
def writeStarTerm : EncodedTerm → Bytes
  | .triple subject predicate object => TermType.starTriple.id ::
    writeStarTerm subject ++ writeStarTerm predicate ++ writeStarTerm object
  | term => writeTerm term

def QuadEncoding.starWriter (e : QuadEncoding) (quad : EncodedQuad) : Bytes :=
  e.positions.flatMap fun p => writeStarTerm (quad.term p)

def EncodedTerm.isTriple : EncodedTerm → Bool
  | .triple .. => true
  | _          => false

def EncodedQuad.hasStar (quad : EncodedQuad) : Bool := quad.subject.isTriple || quad.object.isTriple

section StarForm

variable {t : EncodedTerm} {e : QuadEncoding} {q q' : EncodedQuad}

theorem writeStarTerm_eq (h : t.isTriple = false) : writeStarTerm t = writeTerm t := by
  cases t
  case triple => contradiction
  all_goals rfl

theorem readTermFuel_writeStarTerm (h : t.IsTerm) (hf : (writeStarTerm t).length ≤ fuel) :
    TermReader.readTermFuel fuel (writeStarTerm t ++ rest) = .ok (t.canonical, rest) := by
  induction t generalizing fuel rest
  case triple s p o hs hp ho =>
    cases fuel
    case zero => simp [writeStarTerm] at hf
    case succ fuel =>
      simp only [writeStarTerm, List.cons_append, List.length_cons, List.length_append] at hf
      simp only [writeStarTerm, List.cons_append, List.append_assoc, TermReader.readTermFuel_cons,
        TermReader.readBody]
      rw [TermReader.bind_apply (hs h.1 (by omega)), TermReader.bind_apply (hp h.2.1 (by omega)),
        TermReader.bind_apply (ho h.2.2 (by omega))]
      rfl
  all_goals exact TermReader.readTermFuel_writeTerm h hf

theorem decode_starWriter (h : e.Indexes q) : e.decode (e.starWriter q) = .ok q.canonical := by
  refine QuadEncoding.decode_flatMap (fun p hp rest => ?_) h.graph
  exact readTermFuel_writeStarTerm (h.isTerm hp) (by simp)

theorem length_writeStarTerm : (writeStarTerm t).length = (writeTerm t).length := by
  induction t
  case triple hs hp ho => simp [writeStarTerm, writeTerm, hs, hp, ho]
  all_goals rfl

theorem writeStarTerm_ne (h : t.isTriple) : writeStarTerm t ≠ writeTerm t := by
  cases t
  case triple => simp [writeStarTerm, writeTerm, TermType.id]
  all_goals contradiction

theorem flatMap_writeStarTerm_inj {ps : List Position}
    (h : ps.flatMap (fun p => writeStarTerm (q.term p)) =
      ps.flatMap fun p => writeTerm (q.term p)) :
    ∀ p ∈ ps, writeStarTerm (q.term p) = writeTerm (q.term p) := by
  induction ps
  case nil => simp
  case cons p ps hi =>
    have ⟨hp, hps⟩ := List.append_inj h length_writeStarTerm
    exact List.forall_mem_cons.mpr ⟨hp, hi hps⟩

-- The keys of the old form are none of the new form.
theorem starWriter_ne (h : e.Indexes q) (hs : q.hasStar) (h' : e.Indexes q') :
    e.starWriter q ≠ e.writer q' := by
  intro he
  have hd := decode_starWriter h
  rw [he, h'.decode_writer] at hd
  rw [(h'.writer_eq_iff h).mpr (Except.ok.inj hd), QuadEncoding.writer_eq] at he
  have hp := flatMap_writeStarTerm_inj he
  have hm : .subject ∈ e.positions ∧ .object ∈ e.positions := by cases e <;> decide
  cases (Bool.or_eq_true ..).mp hs
  case inl hs => exact writeStarTerm_ne hs (hp _ hm.1)
  case inr hs => exact writeStarTerm_ne hs (hp _ hm.2)

end StarForm

-- The reified form of RDF 1.2: an embedded triple is replaced by a node that reifies a triple term.
section Reified

variable (reifier : EncodedTerm → EncodedTerm → EncodedTerm → EncodedTerm)

def reifiedTerm : EncodedTerm → EncodedTerm
  | .triple subject predicate object => reifier (reifiedTerm subject) predicate (reifiedTerm object)
  | term => term

-- The nodes for the embedded triples, together with the triple terms that they reify.
def reifications : EncodedTerm → List (EncodedTerm × EncodedTerm)
  | .triple subject predicate object =>
    reifications subject ++ reifications object ++
      [(reifier (reifiedTerm reifier subject) predicate (reifiedTerm reifier object),
        .triple (reifiedTerm reifier subject) predicate (reifiedTerm reifier object))]
  | _ => []

def reifiedQuads (reifies : EncodedTerm) (q : EncodedQuad) : List EncodedQuad :=
  { q with subject := reifiedTerm reifier q.subject, object := reifiedTerm reifier q.object } ::
  (reifications reifier q.subject ++ reifications reifier q.object).map fun (node, triple) =>
    { subject := node, predicate := reifies, object := triple, graphName := q.graphName }

theorem reifiedTerm_eq (h : t.isTriple = false) : reifiedTerm reifier t = t := by
  cases t
  case triple => contradiction
  all_goals rfl

theorem reifications_eq (h : t.isTriple = false) : reifications reifier t = [] := by
  cases t
  case triple => contradiction
  all_goals rfl

theorem reifiedQuads_eq {q : EncodedQuad} (h : q.hasStar = false) :
    reifiedQuads reifier reifies q = [q] := by
  have ⟨hs, ho⟩ := (Bool.or_eq_false_iff ..).mp h
  simp [reifiedQuads, reifiedTerm_eq, reifications_eq, hs, ho]

end Reified

namespace RocksDb

-- A database that holds quads in the form of version 1.
structure StoresV1 (db : Db) (Q : Set EncodedQuad) : Prop where
  version   : (db .default)[versionKey]? = some (Bytes.ofBitVec 8 1)
  isQuad    : ∀ q ∈ Q, q.IsQuad
  canonical : ∀ q ∈ Q, q.canonical = q
  predicate : ∀ q ∈ Q, q.predicate.isTriple = false
  graphName : ∀ q ∈ Q, q.graphName.isTriple = false
  index     : ∀ e k, k ∈ db (QuadEncoding.table e) ↔ ∃ q ∈ Q, e.Indexes q ∧ e.starWriter q = k

-- The indexes hold exactly the quads in their reified form, for some choice of blank nodes.
structure Migrated (enc : Encoder) (Q : Set EncodedQuad) (db : Db) : Prop where
  version : (db .default)[versionKey]? = some (Bytes.ofBitVec 8 2)
  index   : ∃ reifier, (∀ s p o, ∃ id, reifier s p o = .numericalBlankNode id) ∧
    (tables db).Indexes
      { q' | ∃ q ∈ Q, q' ∈ reifiedQuads reifier (enc.encodeNamedNode rdfReifies) q }

-- All keys that a batch changes have the new form.
def WriteBatch.NewForm (batch : WriteBatch) : Prop :=
  ∀ (e : QuadEncoding) k, batch.delta e.table k ≠ none → ∃ q, e.Indexes q ∧ e.writer q = k

namespace WriteBatch.NewForm

variable {batch batch' : WriteBatch} {enc : Encoder}

theorem append (h : batch.NewForm) (h' : NewForm batch') : NewForm (batch ++ batch') := by
  intro e k hd
  rw [delta_append] at hd
  by_cases hk : batch'.delta e.table k = none
  case pos => exact h e k fun hn => hd (Delta.comp_eq_none_iff.mpr ⟨hk, hn⟩)
  case neg => exact h' e k hk

theorem nil : NewForm [] := fun _ _ h => absurd rfl h

theorem insertQuad (h : batch.NewForm) (quad : Rdf.Quad) : (batch.insertQuad enc quad).NewForm := by
  rw [WriteBatch.insertQuad, foldl_insert]
  refine h.append fun e k hd => ?_
  obtain ⟨b, hb⟩ := Option.ne_none_iff_exists'.mp hd
  rw [delta_puts, Layout.puts_eq_some, Layout.mem_insertEntries_index] at hb
  obtain ⟨hg, hw⟩ := Layout.mem_quadKeys_table.mp hb.2
  exact ⟨_, ⟨enc.isQuad_encodeQuad quad, hg⟩, hw⟩

theorem removeEncoded (h : batch.NewForm) {q : EncodedQuad} (hq : q.IsQuad) :
    (batch.removeEncoded q).NewForm := by
  rw [WriteBatch.removeEncoded, foldl_remove]
  refine h.append fun e k hd => ?_
  rw [delta_deletes, TablesDelta.deletes] at hd
  have hk : (e.table, k) ∈ Layout.quadKeys q := by
    by_contra hn
    exact hd (if_neg hn)
  obtain ⟨hg, hw⟩ := Layout.mem_quadKeys_table.mp hk
  exact ⟨q, ⟨hq, hg⟩, hw⟩

end WriteBatch.NewForm

-- All keys of the old form that have been there still are.
def Keeps (db db' : Db) : Prop :=
  ∀ (e : QuadEncoding) q, e.Indexes q → q.hasStar → e.starWriter q ∈ db e.table →
    e.starWriter q ∈ db' e.table

theorem Keeps.trans (h : Keeps db db') (h' : Keeps db' db'') : Keeps db db'' :=
  fun e q hi hs hm => h' e q hi hs (h e q hi hs hm)

theorem WriteBatch.NewForm.keeps {batch : WriteBatch} (h : batch.NewForm) (db : Db) :
    Keeps db (db.write batch) := by
  intro e q hi hs hm
  have hn : batch.delta e.table (e.starWriter q) = none := by
    by_contra hn
    have ⟨q', hi', hw⟩ := h e _ hn
    exact starWriter_ne hi hs hi' hw.symm
  change _ ∈ tables (db.write batch) e.table
  rw [WriteBatch.tables_write]
  exact .inr ⟨hn, hm⟩

namespace Migration

variable {enc : Encoder} {print : Printer}
  {hashTriple : Rdf.NamedOrBlankNode → Rdf.NamedNode → Rdf.Term → BitVec 128}

theorem newForm_toRdf12ReifiedTriple {t : EncodedTerm} {w : WriteBatch}
    (h : toRdf12ReifiedTriple enc print hashTriple g r t w = .ok (t', w')) (hw : w.NewForm) :
    w'.NewForm := by
  induction t generalizing w t' w'
  case triple s p o hs _ ho =>
    rw [toRdf12ReifiedTriple] at h
    have ⟨_, h₁, h⟩ := Except.exists_of_bind_eq_ok h
    have ⟨_, h₂, h⟩ := Except.exists_of_bind_eq_ok h
    have ⟨_, _, h⟩ := Except.exists_of_bind_eq_ok h
    have ⟨_, _, h⟩ := Except.exists_of_bind_eq_ok h
    have ⟨_, _, h⟩ := Except.exists_of_bind_eq_ok h
    have ⟨_, _, h⟩ := Except.exists_of_bind_eq_ok h
    cases h
    exact (ho h₂ (hs h₁ hw)).insertQuad _
  all_goals
    cases h
    exact hw

theorem newForm_reify {q : EncodedQuad} (hq : q.IsQuad)
    (h : reify enc print hashTriple db q = .ok w) : w.NewForm := by
  rw [reify] at h
  have ⟨_, h₁, h⟩ := Except.exists_of_bind_eq_ok h
  have ⟨_, h₂, h⟩ := Except.exists_of_bind_eq_ok h
  have ⟨_, _, h⟩ := Except.exists_of_bind_eq_ok h
  cases h
  have hw := newForm_toRdf12ReifiedTriple h₂ (newForm_toRdf12ReifiedTriple h₁ .nil)
  exact (hw.insertQuad _).removeEncoded hq

theorem bind_apply (x : Call α) (f : α → Call β) (db : Db) : (x >>= f) db =
    match x db with
    | (.ok a, db')    => f a db'
    | (.error e, db') => (.error e, db') := by
  simp only [Bind.bind, ExceptT.bind, ExceptT.mk, ExceptT.bindCont, StateT.bind]
  rcases x db with ⟨_ | _, _⟩ <;> rfl

theorem migrateQuad_keeps {quad : Except StorageError EncodedQuad}
    (h : ∀ q, quad = .ok q → q.IsQuad) (db : Db) :
    Keeps db (migrateQuad enc print hashTriple quad db).2 := by
  rw [migrateQuad]
  split
  case h_1 w hw =>
    have ⟨q, hq, hr⟩ := Except.exists_of_bind_eq_ok hw
    exact (newForm_reify (h q hq) hr).keeps db
  case h_2 => exact fun _ _ _ _ hm => hm

theorem forM_keeps {quads : List (Except StorageError EncodedQuad)}
    (h : ∀ q, .ok q ∈ quads → q.IsQuad) (db : Db) :
    Keeps db ((quads.forM (migrateQuad enc print hashTriple) : Call Unit) db).2 := by
  induction quads generalizing db
  case nil => exact fun _ _ _ _ hm => hm
  case cons quad quads hi =>
    have hk : Keeps db (migrateQuad enc print hashTriple quad db).2 :=
      migrateQuad_keeps (fun q hq => h q (hq ▸ List.mem_cons_self)) db
    rw [List.forM, bind_apply]
    split
    case h_1 db' he =>
      rw [he] at hk
      exact hk.trans <| hi (fun q hq => h q (List.mem_cons_of_mem _ hq)) db'
    case h_2 e db' he => rwa [he] at hk

-- The quads that are looked at.
def starQuads (db : Db) : List (Except StorageError EncodedQuad) :=
  let r : StorageReader := { snapshot := db, batch := [] }
  let pre := [TermType.starTriple.id]
  r.dspoQuads pre ++ r.spogQuads pre ++ r.dospQuads pre ++ r.ospgQuads pre

theorem migrate_eq (h : (db .default)[versionKey]? = some (Bytes.ofBitVec 8 1)) :
    migrate enc print hashTriple true db =
      match ((starQuads db).forM (migrateQuad enc print hashTriple) : Call Unit) db with
      | (.ok _, db')    => updateVersion 2 db'
      | (.error e, db') => (.error e, db') := by
  have hv : ensureVersion db = (.ok 1, db) := by
    rw [ensureVersion, bind_apply]
    have hg : (get : Call Db) db = (.ok db, db) := rfl
    rw [hg]
    dsimp only
    rw [h]
    rfl
  rw [migrate, bind_apply, hv]
  change (migrateToV2 enc print hashTriple >>= fun _ => _ : Call Unit) db = _
  have hs : snapshot db = (.ok ⟨db, []⟩, db) := rfl
  have hm : migrateToV2 enc print hashTriple db =
      match ((starQuads db).forM (migrateQuad enc print hashTriple) : Call Unit) db with
      | (.ok _, db')    => updateVersion 2 db'
      | (.error e, db') => (.error e, db') := by
    rw [migrateToV2, bind_apply, hs]
    dsimp only
    rw [bind_apply]
    simp only [starQuads]
    generalize (List.forM _ (migrateQuad enc print hashTriple) : Call Unit) db = outcome
    rcases outcome with ⟨_ | _, _⟩ <;> rfl
  rw [bind_apply, hm]
  rcases ((starQuads db).forM (migrateQuad enc print hashTriple) : Call Unit) db with ⟨_ | _, _⟩ <;>
    rfl

variable {Q : Set EncodedQuad}

theorem mem_starQuads : item ∈ starQuads db ↔
    ∃ e ∈ [QuadEncoding.dspo, .spog, .dosp, .ospg], ∃ k ∈ db e.table,
      k ∈ prefixRange [TermType.starTriple.id] ∧ e.decode k = item := by
  have hi (e : QuadEncoding) : item ∈ StorageReader.innerQuads ⟨db, []⟩ e.table
      [TermType.starTriple.id] e ↔ ∃ k ∈ db e.table,
        k ∈ prefixRange [TermType.starTriple.id] ∧ e.decode k = item := by
    simp only [StorageReader.innerQuads, List.mem_map, Reader.mem_scanPrefix, and_assoc]
    rfl
  simp only [starQuads, List.mem_append, List.mem_cons, List.not_mem_nil, or_false, or_and_right,
    exists_or, exists_eq_left, ← hi, or_assoc]
  rfl

theorem isQuad_of_mem_starQuads (h : StoresV1 db Q) {q : EncodedQuad}
    (hq : .ok q ∈ starQuads db) : q.IsQuad := by
  have ⟨e, _, k, hk, _, hd⟩ := mem_starQuads.mp hq
  have ⟨q', _, hi, hw⟩ := (h.index e k).mp hk
  rw [← hw, decode_starWriter hi] at hd
  exact Except.ok.inj hd ▸ hi.isQuad.canonical

theorem updateVersion_index (version : ℕ) (db : Db) (e : QuadEncoding) :
    (updateVersion version db).2 e.table = db e.table := by
  have hd : e.table ≠ .default := by cases e <;> decide
  change Mutation.applyAll (db e.table) (WriteBatch.of _ e.table) = _
  simp [WriteBatch.of, hd.symm]

theorem migrate_keeps (h : StoresV1 db Q) : Keeps db (migrate enc print hashTriple true db).2 := by
  have hk : Keeps db ((starQuads db).forM (migrateQuad enc print hashTriple) db).2 :=
    forM_keeps (fun _ => isQuad_of_mem_starQuads h) db
  rw [migrate_eq h.version]
  split
  case h_1 db' he =>
    rw [he] at hk
    intro e q hi hs hm
    rw [updateVersion_index]
    exact hk e q hi hs hm
  case h_2 e db' he => rwa [he] at hk

-- Without embedded triples the two forms are the same.
theorem starWriter_eq (h : StoresV1 db Q) (hq : q ∈ Q) (hs : q.hasStar = false)
    (e : QuadEncoding) : e.starWriter q = e.writer q := by
  have ⟨hsub, hobj⟩ := (Bool.or_eq_false_iff ..).mp hs
  rw [QuadEncoding.writer_eq, QuadEncoding.starWriter, writeQuad]
  congr 1
  funext p
  refine writeStarTerm_eq ?_
  cases p
  case subject => exact hsub
  case predicate => exact h.predicate q hq
  case object => exact hobj
  case graphName => exact h.graphName q hq

-- No term of the new form starts like an embedded triple of the old form.
theorem not_mem_prefixRange {t : EncodedTerm} (h : t.IsTerm) (rest : Bytes) :
    writeTerm t ++ rest ∉ prefixRange [TermType.starTriple.id] := by
  have ⟨type, bytes, hw, ht⟩ : ∃ (type : TermType) (bytes : Bytes),
      writeTerm t = type.id :: bytes ∧ type ≠ .starTriple := by
    cases t
    case defaultGraph => contradiction
    case booleanLiteral value => cases value <;> exact ⟨_, _, rfl, by decide⟩
    all_goals exact ⟨_, _, rfl, by decide⟩
  intro ⟨hl, hu⟩
  have hp : [TermType.starTriple.id] <+: writeTerm t ++ rest :=
    Bytes.prefix_iff_mem_range.mpr ⟨hl, hu⟩
  rw [hw, List.cons_append, List.cons_prefix_cons] at hp
  have hi := congrArg TermType.ofId hp.1
  rw [TermType.ofId_id, TermType.ofId_id] at hi
  exact ht (Option.some.inj hi).symm

theorem starQuads_eq_nil (h : StoresV1 db Q) (hs : ∀ q ∈ Q, q.hasStar = false) :
    starQuads db = [] := by
  refine List.eq_nil_iff_forall_not_mem.mpr fun item hm => ?_
  have ⟨e, _, k, hk, hp, _⟩ := mem_starQuads.mp hm
  have ⟨q, hq, hi, hw⟩ := (h.index e k).mp hk
  have ⟨p, ps, he⟩ : ∃ p ps, e.positions = p :: ps := by cases e <;> exact ⟨_, _, rfl⟩
  rw [starWriter_eq h hq (hs q hq), QuadEncoding.writer_eq, he] at hw
  exact not_mem_prefixRange (hi.isTerm (he ▸ List.mem_cons_self)) _ (hw ▸ hp)

theorem migrated_iff (h : StoresV1 db Q) :
    (∃ db', migrate enc print hashTriple true db = (.ok (), db') ∧ Migrated enc Q db') ↔
      ∀ q ∈ Q, q.hasStar = false := by
  constructor
  · intro ⟨db', hm, hv, reifier, _, hi⟩ q hq
    by_contra hs
    have hs : q.hasStar = true := by simpa using hs
    have ⟨e, he⟩ := (h.isQuad q hq).exists_indexes
    have hk : e.starWriter q ∈ (migrate enc print hashTriple true db).2 e.table :=
      migrate_keeps h e q he hs <| (h.index e _).mpr ⟨q, hq, he, rfl⟩
    rw [hm] at hk
    have ⟨q', _, he', hw⟩ := (hi.index e _).mp hk
    exact starWriter_ne he hs he' hw.symm
  · intro hs
    refine ⟨(updateVersion 2 db).2, ?_, ?_⟩
    · rw [migrate_eq h.version, starQuads_eq_nil h hs]
      rfl
    · constructor
      case version =>
        change (Mutation.applyAll (db .default) [.put versionKey _])[versionKey]? = _
        simp [Mutation.applyAll, Mutation.apply]
      case index =>
        refine ⟨fun _ _ _ => .numericalBlankNode ⟨.replicate 16 0, rfl⟩, fun _ _ _ => ⟨_, rfl⟩, ?_⟩
        have hQ : { q' | ∃ q ∈ Q, q' ∈ reifiedQuads
            (fun _ _ _ => .numericalBlankNode ⟨.replicate 16 0, rfl⟩)
            (enc.encodeNamedNode rdfReifies) q } = Q := by
          ext q'
          constructor
          · rintro ⟨q, hq, hr⟩
            rw [reifiedQuads_eq _ (hs q hq), List.mem_singleton] at hr
            exact hr ▸ hq
          · exact fun hq => ⟨q', hq, by rw [reifiedQuads_eq _ (hs q' hq)]; simp⟩
        rw [hQ]
        refine ⟨h.isQuad, h.canonical, fun e k => ?_⟩
        change k ∈ (updateVersion 2 db).2 e.table ↔ _
        rw [updateVersion_index, h.index]
        refine exists_congr fun q => and_congr_right fun hq => and_congr_right fun _ => ?_
        rw [starWriter_eq h hq (hs q hq)]

-- A database of version 1 with one quad of the default graph.
def node (id : UInt8) : StrHash := ⟨⟨.replicate 15 0 ++ [id], rfl⟩⟩

def sampleDb (quad : EncodedQuad) : Db := fun
  | .default => (∅ : Kv Bytes Bytes).insert versionKey (Bytes.ofBitVec 8 1)
  | .id2str  => (∅ : Kv Bytes Bytes)
    |>.insert (node 1).toBeBytes (SmallString.strBytes "http://example.com/s")
    |>.insert (node 2).toBeBytes (SmallString.strBytes "http://example.com/p")
    |>.insert (node 3).toBeBytes (SmallString.strBytes "http://example.com/o")
  | .dspo    => (∅ : Kv Bytes Bytes).insert (QuadEncoding.dspo.starWriter quad) []
  | .dpos    => (∅ : Kv Bytes Bytes).insert (QuadEncoding.dpos.starWriter quad) []
  | .dosp    => (∅ : Kv Bytes Bytes).insert (QuadEncoding.dosp.starWriter quad) []
  | _        => ∅

theorem storesV1_sampleDb {quad : EncodedQuad} (hq : quad.IsQuad) (hc : quad.canonical = quad)
    (hp : quad.predicate.isTriple = false) (hg : quad.graphName = .defaultGraph) :
    StoresV1 (sampleDb quad) {quad} where
  version   := Std.ExtTreeMap.getElem?_insert_self
  isQuad    := by simpa using hq
  canonical := by simpa using hc
  predicate := by simpa using hp
  graphName := by simp [hg, EncodedTerm.isTriple]
  index e k := by
    have hi : e.Indexes quad ↔ e.forDefaultGraph :=
      ⟨fun h => h.graph.mp hg, fun h => ⟨hq, by simp [hg, h]⟩⟩
    cases e <;>
      simp [hi, sampleDb, QuadEncoding.table, QuadEncoding.forDefaultGraph, QuadEncoding.positions,
        compare_eq_iff_eq]

def starQuad : EncodedQuad where
  subject   := .triple (.namedNode (node 1)) (.namedNode (node 2)) (.namedNode (node 3))
  predicate := .namedNode (node 2)
  object    := .namedNode (node 3)
  graphName := .defaultGraph

theorem starQuads_sampleDb : starQuads (sampleDb starQuad) = [.ok starQuad] := rfl

-- The migration succeeds, but the keys with the embedded triple are still there.
theorem migrate_starQuad :
    StoresV1 (sampleDb starQuad) {starQuad} ∧ starQuad.hasStar ∧
    ∃ db', migrate .plain .plain (fun _ _ _ => 0) true (sampleDb starQuad) = (.ok (), db') ∧
      ∀ e : QuadEncoding, e.forDefaultGraph → e.starWriter starQuad ∈ db' e.table := by
  have hq : starQuad.IsQuad := by constructor <;> simp [starQuad, EncodedTerm.IsTerm]
  have hv : StoresV1 (sampleDb starQuad) {starQuad} := storesV1_sampleDb hq rfl rfl rfl
  obtain ⟨w, hw⟩ : ∃ w, reify .plain .plain (fun _ _ _ => 0) (sampleDb starQuad) starQuad = .ok w :=
    ⟨_, rfl⟩
  have hs : migrateQuad .plain .plain (fun _ _ _ => 0) (.ok starQuad) (sampleDb starQuad) =
      (.ok (), (sampleDb starQuad).write w) := by
    rw [migrateQuad]
    split
    case h_1 w' hw' => cases hw.symm.trans hw'; rfl
    case h_2 e he => cases hw.symm.trans he
  have hm : migrate .plain .plain (fun _ _ _ => 0) true (sampleDb starQuad) =
      updateVersion 2 ((sampleDb starQuad).write w) := by
    rw [migrate_eq hv.version, starQuads_sampleDb, List.forM, bind_apply, hs]
    rfl
  refine ⟨hv, rfl, (updateVersion 2 ((sampleDb starQuad).write w)).2, hm, fun e he => ?_⟩
  have hi : e.Indexes starQuad := ⟨hq, iff_of_true rfl he⟩
  have hk : Keeps (sampleDb starQuad) (migrate .plain .plain (fun _ _ _ => 0) true
    (sampleDb starQuad)).2 := migrate_keeps hv
  rw [hm] at hk
  exact hk e starQuad hi rfl ((hv.index e _).mpr ⟨_, rfl, hi, rfl⟩)

def plainQuad : EncodedQuad := { starQuad with subject := .namedNode (node 1) }

theorem migrated_plainQuad :
    StoresV1 (sampleDb plainQuad) {plainQuad} ∧
    ∃ db', migrate .plain .plain (fun _ _ _ => 0) true (sampleDb plainQuad) = (.ok (), db') ∧
      Migrated .plain {plainQuad} db' := by
  have hq : plainQuad.IsQuad := by constructor <;> simp [plainQuad, starQuad, EncodedTerm.IsTerm]
  have hv : StoresV1 (sampleDb plainQuad) {plainQuad} := storesV1_sampleDb hq rfl rfl rfl
  exact ⟨hv, (migrated_iff hv).mpr (by simp; rfl)⟩

end Migration

end RocksDb
