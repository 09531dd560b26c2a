import OxigraphCloud.Objects.NQuads
import OxigraphCloud.Primitives.Digits
import OxigraphCloud.Primitives.Json
import OxigraphCloud.Server.Http

-- The JSON texts of changelog entries.

open Json

-- The escape of one character.
def escapeChar (c : Char) : List Char :=
  if c = '\\' then ['\\', '\\']
  else if c = '"' then ['\\', '"']
  else if c = '\n' then ['\\', 'n']
  else if c = '\r' then ['\\', 'r']
  else if c = '\t' then ['\\', 't']
  else [c]

theorem toList_replaceChar (c : Char) (replacement : List Char) (str : String) :
    (replaceChar c replacement str).toList =
      str.toList.flatMap fun d => if d = c then replacement else [d] := by
  rw [replaceChar, String.toList_ofList]

-- The replacements do not see what the ones before have written.
theorem toList_escapeJson (str : String) :
    (escapeJson str).toList = str.toList.flatMap escapeChar := by
  simp only [escapeJson, toList_replaceChar, List.flatMap_assoc]
  congr 1
  funext c
  unfold escapeChar
  repeat' split
  all_goals simp_all

-- The characters that are escaped where JSON demands it.
def Escapable (c : Char) : Prop := 0x20 ≤ c.toNat ∨ c = '\n' ∨ c = '\r' ∨ c = '\t'

instance decidableEscapable (c : Char) : Decidable (Escapable c) := by
  unfold Escapable
  infer_instance

-- A text without control characters, apart from the three that are escaped.
def Safe (text : List Char) : Prop := ∀ c ∈ text, Escapable c

@[simp]
theorem safe_nil : Safe [] := by
  rintro c ⟨⟩

@[simp]
theorem safe_cons : Safe (c :: text) ↔ Escapable c ∧ Safe text := List.forall_mem_cons

@[simp]
theorem safe_append : Safe (text ++ text') ↔ Safe text ∧ Safe text' := List.forall_mem_append

theorem chars_escapeChar_iff (c : Char) (cs text rest : List Char) :
    Chars (escapeChar c ++ cs) text rest ↔
      Escapable c ∧ ∃ text', text = c :: text' ∧ Chars cs text' rest := by
  have hescape {e} (he : unescape e = some c) (hc : Escapable c) :
      Chars ('\\' :: e :: cs) text rest ↔
        Escapable c ∧ ∃ text', text = c :: text' ∧ Chars cs text' rest := by
    rw [chars_escape_iff he, and_iff_right hc]
  by_cases hb : c = '\\'
  case pos =>
    subst hb
    exact hescape rfl (by decide)
  by_cases hq : c = '"'
  case pos =>
    subst hq
    exact hescape rfl (by decide)
  by_cases hn : c = '\n'
  case pos =>
    subst hn
    exact hescape rfl (by decide)
  by_cases hr : c = '\r'
  case pos =>
    subst hr
    exact hescape rfl (by decide)
  by_cases ht : c = '\t'
  case pos =>
    subst ht
    exact hescape rfl (by decide)
  have hc : escapeChar c = [c] := by simp [escapeChar, hb, hq, hn, hr, ht]
  have hu : IsUnescaped c ↔ Escapable c := by
    simp [IsUnescaped, Escapable, hb, hq, hn, hr, ht]
  rw [hc, List.singleton_append, chars_cons_iff hq hb, hu]

-- The members of the texts.
def stringField (name : String) (h : ∀ c ∈ name.toList, IsUnescaped c) (str : String) : Field where
  name     := name.toList
  spelling := '"' :: (str.toList.flatMap escapeChar ++ ['"'])
  value    := .string str.toList
  ok       := Safe str.toList
  plain    := h
  spells   := .string chars_escapeChar_iff str.toList

theorem isNumber_toDigits (n : ℕ) : IsNumber (Nat.toDigits 10 n) := by
  refine ⟨[], _, [], [], by simp; rfl, .inl rfl, ⟨⟨Nat.toDigits_ne_nil, ?_⟩, ?_⟩, .none, .none⟩
  · exact fun c => Nat.isDigit_of_mem_toDigits (by decide) (by decide)
  · intro h
    cases n
    case zero => rfl
    case succ n => exact absurd h (Nat.head?_toDigits_ne n.succ_pos)

theorem exists_cons_toDigits (n : ℕ) : ∃ c cs, Nat.toDigits 10 n = c :: cs ∧ ¬isWs c := by
  have hn : Nat.toDigits 10 n ≠ [] := Nat.toDigits_ne_nil
  obtain ⟨c, cs, hc⟩ := List.exists_cons_of_ne_nil hn
  have hd : c.isDigit :=
    Nat.isDigit_of_mem_toDigits (by decide) (by decide) (hc ▸ List.mem_cons_self)
  refine ⟨c, cs, hc, fun hw => ?_⟩
  simp only [isWs, Bool.or_eq_true, decide_eq_true_eq] at hw
  rcases hw with ((rfl | rfl) | rfl) | rfl
  all_goals cases hd

def numberField (name : String) (h : ∀ c ∈ name.toList, IsUnescaped c) (n : ℕ) : Field where
  name     := name.toList
  spelling := Nat.toDigits 10 n
  value    := .number (Nat.toDigits 10 n)
  ok       := True
  plain    := h
  spells   := .number (isNumber_toDigits n) (exists_cons_toDigits n)

def boolField (name : String) (h : ∀ c ∈ name.toList, IsUnescaped c) (b : Bool) : Field where
  name     := name.toList
  spelling := (toString b).toList
  value    := .bool b
  ok       := True
  plain    := h
  spells   := .bool b

namespace ChangelogEntry

def listFields (entry : ChangelogEntry) : List Field :=
  [numberField "id" (by simp [IsUnescaped]) entry.id.toNat,
    stringField "timestamp" (by simp [IsUnescaped]) entry.timestamp,
    stringField "operation" (by simp [IsUnescaped]) entry.operation,
    boolField "undoable" (by simp [IsUnescaped]) entry.undoable]

def detailFields (entry : ChangelogEntry) (nquads : List Rdf.Quad → String) : List Field :=
  entry.listFields ++
    [numberField "insertCount" (by simp [IsUnescaped]) entry.inserted.length,
      numberField "removeCount" (by simp [IsUnescaped]) entry.removed.length,
      stringField "inserted" (by simp [IsUnescaped]) (nquads entry.inserted),
      stringField "removed" (by simp [IsUnescaped]) (nquads entry.removed)]

theorem writeAll_listFields (entry : ChangelogEntry) : Field.writeAll entry.listFields =
    '"' :: ("id".toList ++ '"' :: ':' :: Nat.toDigits 10 entry.id.toNat) ++
    ',' :: ('"' :: ("timestamp".toList ++ '"' :: ':' ::
      ('"' :: (entry.timestamp.toList.flatMap escapeChar ++ ['"']))) ++
    ',' :: ('"' :: ("operation".toList ++ '"' :: ':' ::
      ('"' :: (entry.operation.toList.flatMap escapeChar ++ ['"']))) ++
    ',' :: ('"' :: ("undoable".toList ++ '"' :: ':' :: (toString entry.undoable).toList)))) := rfl

theorem toList_toListJson (entry : ChangelogEntry) :
    entry.toListJson.toList = '\x7b' :: (Field.writeAll entry.listFields ++ ['\x7d']) := by
  have hid : (toString entry.id).toList = Nat.toDigits 10 entry.id.toNat := Nat.toList_repr
  rw [writeAll_listFields, ← hid]
  unfold toListJson
  generalize toString entry.id = id, toString entry.undoable = undoable
  simp only [String.toList_append, toList_escapeJson, String.reduceToList, List.append_assoc,
    List.cons_append, List.nil_append]

theorem writeAll_detailFields (entry : ChangelogEntry) (nquads : List Rdf.Quad → String) :
    Field.writeAll (entry.detailFields nquads) = Field.writeAll entry.listFields ++
    ',' :: ('"' :: ("insertCount".toList ++ '"' :: ':' :: Nat.toDigits 10 entry.inserted.length) ++
    ',' :: ('"' :: ("removeCount".toList ++ '"' :: ':' :: Nat.toDigits 10 entry.removed.length) ++
    ',' :: ('"' :: ("inserted".toList ++ '"' :: ':' ::
      ('"' :: ((nquads entry.inserted).toList.flatMap escapeChar ++ ['"']))) ++
    ',' :: ('"' :: ("removed".toList ++ '"' :: ':' ::
      ('"' :: ((nquads entry.removed).toList.flatMap escapeChar ++ ['"']))))))) := by
  exact Field.writeAll_append (by simp [listFields]) (by simp)

theorem toList_toDetailJson (entry : ChangelogEntry) (sv : Services) :
    (entry.toDetailJson sv).toList =
      '\x7b' :: (Field.writeAll (entry.detailFields sv.serializeNQuads) ++ ['\x7d']) := by
  have hid : (toString entry.id).toList = Nat.toDigits 10 entry.id.toNat := Nat.toList_repr
  have hi : (toString entry.inserted.length).toList = Nat.toDigits 10 entry.inserted.length :=
    Nat.toList_repr
  have hr : (toString entry.removed.length).toList = Nat.toDigits 10 entry.removed.length :=
    Nat.toList_repr
  rw [writeAll_detailFields, writeAll_listFields, ← hid, ← hi, ← hr]
  unfold toDetailJson
  generalize toString entry.id = id, toString entry.undoable = undoable,
    toString entry.inserted.length = inserted, toString entry.removed.length = removed
  simp only [String.toList_append, toList_escapeJson, Services.quadsToNquads, String.reduceToList,
    List.append_assoc, List.cons_append, List.nil_append]

-- The values that the texts should stand for.
def listJson (entry : ChangelogEntry) : Json :=
  .object [("id".toList, .number (toString entry.id).toList),
    ("timestamp".toList, .string entry.timestamp.toList),
    ("operation".toList, .string entry.operation.toList),
    ("undoable".toList, .bool entry.undoable)]

def detailJson (sv : Services) (entry : ChangelogEntry) : Json :=
  .object [("id".toList, .number (toString entry.id).toList),
    ("timestamp".toList, .string entry.timestamp.toList),
    ("operation".toList, .string entry.operation.toList),
    ("undoable".toList, .bool entry.undoable),
    ("insertCount".toList, .number (toString entry.inserted.length).toList),
    ("removeCount".toList, .number (toString entry.removed.length).toList),
    ("inserted".toList, .string (sv.quadsToNquads entry.inserted).toList),
    ("removed".toList, .string (sv.quadsToNquads entry.removed).toList)]

theorem text_listJson_iff (entry : ChangelogEntry) :
    Text entry.toListJson.toList entry.listJson ↔
      Safe entry.timestamp.toList ∧ Safe entry.operation.toList := by
  have hid : (toString entry.id).toList = Nat.toDigits 10 entry.id.toNat := Nat.toList_repr
  have hj : entry.listJson = .object (entry.listFields.map fun f => (f.name, f.value)) := by
    simp only [listJson, hid]
    rfl
  rw [toList_toListJson, hj, Field.text_object_iff _ (by simp [listFields])]
  simp [listFields, stringField, numberField, boolField]

theorem text_detailJson_iff (sv : Services) (entry : ChangelogEntry) :
    Text (entry.toDetailJson sv).toList (entry.detailJson sv) ↔
      Safe entry.timestamp.toList ∧ Safe entry.operation.toList ∧
      Safe (sv.serializeNQuads entry.inserted).toList ∧
      Safe (sv.serializeNQuads entry.removed).toList := by
  have hid : (toString entry.id).toList = Nat.toDigits 10 entry.id.toNat := Nat.toList_repr
  have hn (n : ℕ) : (toString n).toList = Nat.toDigits 10 n := Nat.toList_repr
  have hj : entry.detailJson sv =
      .object ((entry.detailFields sv.serializeNQuads).map fun f => (f.name, f.value)) := by
    simp only [detailJson, hid, hn]
    rfl
  rw [toList_toDetailJson, hj, Field.text_object_iff _ (by simp [detailFields])]
  simp [detailFields, listFields, stringField, numberField, boolField]

end ChangelogEntry

namespace Rdf

-- The strings that are printed as they are.
def NamedOrBlankNode.rawTexts : NamedOrBlankNode → List String
  | namedNode node => [node]
  | blankNode node => [node.asStr]

def Literal.rawTexts : Literal → List String
  | string _                                     => []
  | languageTaggedString _ language              => [language]
  | directionalLanguageTaggedString _ language _ => [language]
  | typedLiteral _ datatype                      => [datatype]

def Term.rawTexts : Term → List String
  | namedNode node => [node]
  | blankNode node => [node.asStr]
  | literal l      => l.rawTexts
  | triple s p o   => s.rawTexts ++ p :: o.rawTexts

def GraphName.rawTexts : GraphName → List String
  | namedNode node => [node]
  | blankNode node => [node.asStr]
  | defaultGraph   => []

def Quad.rawTexts (q : Quad) : List String :=
  q.subject.rawTexts ++ q.predicate :: q.object.rawTexts ++ q.graphName.rawTexts

theorem escapable_digitChar : ∀ n < 16, Escapable (Nat.digitChar n).toUpper := by
  decide

theorem exists_digitChar_of_mem_toDigits (h : c ∈ Nat.toDigits 16 n) :
    ∃ d < 16, c = Nat.digitChar d := by
  induction n using Nat.strongRecOn
  case ind n hi =>
    rcases lt_or_ge n 16
    case inl hn =>
      rw [Nat.toDigits_of_lt_base hn] at h
      exact ⟨n, hn, List.mem_singleton.mp h⟩
    case inr hn =>
      rw [Nat.toDigits_of_base_le (by decide) hn, List.mem_append] at h
      rcases h with h | h
      · exact hi (n / 16) (by omega) h
      · exact ⟨n % 16, Nat.mod_lt _ (by decide), List.mem_singleton.mp h⟩

theorem escapable_of_mem_upperHex (h : c ∈ upperHex n) : Escapable c := by
  rw [upperHex, List.leftpad, List.mem_append, List.mem_replicate, List.mem_map] at h
  rcases h with ⟨-, rfl⟩ | ⟨c, hc, rfl⟩
  · decide
  · obtain ⟨d, hd, rfl⟩ := exists_digitChar_of_mem_toDigits hc
    exact escapable_digitChar d hd

-- Quoted strings do not have any control characters.
theorem escapable_of_mem_quotedChar (h : c ∈ quotedChar d) : Escapable c := by
  have hpair {e} (he : Escapable e) (h : c ∈ ['\\', e]) : Escapable c := by
    rcases List.mem_pair.mp h with rfl | rfl
    · decide
    · exact he
  unfold quotedChar at h
  iterate 7
    split at h
    · exact hpair (by decide) h
  split at h
  case isTrue =>
    rcases List.mem_cons.mp h with rfl | h
    · decide
    · rcases List.mem_cons.mp h with rfl | h
      · decide
      · exact escapable_of_mem_upperHex h
  case isFalse hn =>
    obtain rfl := List.mem_singleton.mp h
    exact .inl (by omega)

@[simp]
theorem safe_printQuotedStr (str : String) : Safe (printQuotedStr str) := by
  have hv : Safe (str.toList.flatMap quotedChar) := by
    intro c h
    obtain ⟨d, -, h⟩ := List.mem_flatMap.mp h
    exact escapable_of_mem_quotedChar h
  simp +decide [printQuotedStr, hv]

def AllSafe (texts : List String) : Prop := ∀ str ∈ texts, Safe str.toList

@[simp]
theorem allSafe_nil : AllSafe [] := by
  rintro c ⟨⟩

@[simp]
theorem allSafe_cons : AllSafe (str :: texts) ↔ Safe str.toList ∧ AllSafe texts :=
  List.forall_mem_cons

@[simp]
theorem allSafe_append : AllSafe (texts ++ texts') ↔ AllSafe texts ∧ AllSafe texts' :=
  List.forall_mem_append

@[simp]
theorem NamedNode.safe_display (node : NamedNode) :
    Safe (NamedNode.display node) ↔ Safe (String.toList node) := by
  simp +decide [display]

@[simp]
theorem BlankNode.safe_display (node : BlankNode) : Safe node.display ↔ Safe node.asStr.toList := by
  simp +decide [display]

@[simp]
theorem NamedOrBlankNode.safe_display (node : NamedOrBlankNode) :
    Safe node.display ↔ AllSafe node.rawTexts := by
  cases node <;> simp [display, rawTexts]

@[simp]
theorem BaseDirection.safe_display (direction : BaseDirection) : Safe direction.display := by
  cases direction <;> simp +decide [display]

@[simp]
theorem Literal.safe_display (l : Literal) : Safe l.display ↔ AllSafe l.rawTexts := by
  cases l <;> simp +decide [display, rawTexts]

@[simp]
theorem Term.safe_display (t : Term) : Safe t.display ↔ AllSafe t.rawTexts := by
  induction t
  case triple s p o hi => simp +decide [display, rawTexts, hi]
  all_goals simp [display, rawTexts]

@[simp]
theorem GraphName.safe_display (g : GraphName) : Safe g.display ↔ AllSafe g.rawTexts := by
  cases g <;> simp +decide [display, rawTexts]

-- What is printed has the control characters of the strings that are printed as they are.
theorem Quad.safe_display (q : Quad) : Safe q.display ↔ AllSafe q.rawTexts := by
  cases hg : q.graphName
  all_goals simp +decide [display, rawTexts, GraphName.isDefaultGraph, GraphName.rawTexts, hg]

theorem safe_serializeNQuads (quads : List Quad) :
    Safe (serializeNQuads quads).toList ↔ ∀ q ∈ quads, AllSafe q.rawTexts := by
  rw [serializeNQuads, String.toList_ofList]
  induction quads
  case nil => simp
  case cons q quads hi =>
    rw [List.flatMap_cons, safe_append, hi, List.forall_mem_cons]
    simp +decide [q.safe_display]

end Rdf

-- The texts are JSON with the fields of the entry exactly if the timestamp, the operation and the
-- strings that are printed as they are in the quads do not have any other control characters.
theorem changelogJson_iff (sv : Services) (entry : ChangelogEntry) :
    (Text entry.toListJson.toList entry.listJson ↔
      Safe entry.timestamp.toList ∧ Safe entry.operation.toList) ∧
    let sv := { sv with serializeNQuads := Rdf.serializeNQuads }
    (Text (entry.toDetailJson sv).toList (entry.detailJson sv) ↔
      Safe entry.timestamp.toList ∧ Safe entry.operation.toList ∧
      (∀ q ∈ entry.inserted, Rdf.AllSafe q.rawTexts) ∧
      ∀ q ∈ entry.removed, Rdf.AllSafe q.rawTexts) := by
  refine ⟨entry.text_listJson_iff, ?_⟩
  rw [← Rdf.safe_serializeNQuads, ← Rdf.safe_serializeNQuads]
  exact ChangelogEntry.text_detailJson_iff _ entry

-- An entry whose operation has a control character.
def controlEntry : ChangelogEntry where
  id        := 1
  timestamp := "2000-02-29T00:00:00Z"
  operation := "\x01"
  inserted  := []
  removed   := []
  undoable  := true

theorem not_changelogJson :
    ¬Text controlEntry.toListJson.toList controlEntry.listJson ∧
    ∀ sv, ¬Text (controlEntry.toDetailJson sv).toList (controlEntry.detailJson sv) := by
  have h : ¬Safe controlEntry.operation.toList := by
    simp [controlEntry, Escapable]
  refine ⟨?_, fun sv => ?_⟩
  · rw [ChangelogEntry.text_listJson_iff]
    exact fun hs => h hs.2
  · rw [ChangelogEntry.text_detailJson_iff]
    exact fun hs => h hs.2.1
