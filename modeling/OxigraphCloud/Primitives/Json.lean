import Mathlib.Data.List.Basic
import Mathlib.Tactic

-- JSON texts, as RFC 8259 defines them, and the values that they stand for. What is read is
-- described together with what is left behind it.

inductive Json
  | null
  | bool (value : Bool)
  | number (text : List Char)
  | string (text : List Char)
  | array (elements : List Json)
  | object (members : List (List Char × Json))

namespace Json

def isWs (c : Char) : Bool := c = ' ' || c = '\t' || c = '\n' || c = '\r'

inductive Ws : List Char → List Char → Prop
  | nil : Ws cs cs
  | cons : isWs c → Ws cs rest → Ws (c :: cs) rest

def IsUnescaped (c : Char) : Prop := 0x20 ≤ c.toNat ∧ c ≠ '"' ∧ c ≠ '\\'

instance decidableIsUnescaped (c : Char) : Decidable (IsUnescaped c) := by
  unfold IsUnescaped
  infer_instance

-- The character that another one stands for behind a backslash.
def unescape : Char → Option Char
  | '"'  => some '"'
  | '\\' => some '\\'
  | '/'  => some '/'
  | 'b'  => some '\x08'
  | 'f'  => some '\x0C'
  | 'n'  => some '\n'
  | 'r'  => some '\r'
  | 't'  => some '\t'
  | _    => none

def hexDigit (c : Char) : Option ℕ :=
  if c.isDigit then some (c.toNat - 48)
  else if 'a' ≤ c ∧ c ≤ 'f' then some (c.toNat - 87)
  else if 'A' ≤ c ∧ c ≤ 'F' then some (c.toNat - 55)
  else none

def codeUnit (d₁ d₂ d₃ d₄ : Char) : Option ℕ := do
  return (((← hexDigit d₁) * 16 + (← hexDigit d₂)) * 16 + (← hexDigit d₃)) * 16 + (← hexDigit d₄)

-- A string behind its opening quotation mark.
inductive Chars : List Char → List Char → List Char → Prop
  | close : Chars ('"' :: rest) [] rest
  | unescaped : IsUnescaped c → Chars cs text rest → Chars (c :: cs) (c :: text) rest
  | escape : unescape e = some c → Chars cs text rest → Chars ('\\' :: e :: cs) (c :: text) rest
  | unicode : codeUnit d₁ d₂ d₃ d₄ = some c.toNat → Chars cs text rest →
    Chars ('\\' :: 'u' :: d₁ :: d₂ :: d₃ :: d₄ :: cs) (c :: text) rest
  | surrogates : codeUnit d₁ d₂ d₃ d₄ = some (0xD800 + high) → high < 0x400 →
    codeUnit e₁ e₂ e₃ e₄ = some (0xDC00 + low) → low < 0x400 →
    c.toNat = 0x10000 + high * 0x400 + low → Chars cs text rest →
    Chars ('\\' :: 'u' :: d₁ :: d₂ :: d₃ :: d₄ :: '\\' :: 'u' :: e₁ :: e₂ :: e₃ :: e₄ :: cs)
      (c :: text) rest

def IsDigits (text : List Char) : Prop := text ≠ [] ∧ ∀ c ∈ text, c.isDigit

def IsInt (text : List Char) : Prop := IsDigits text ∧ (text.head? = some '0' → text = ['0'])

inductive IsFraction : List Char → Prop
  | none : IsFraction []
  | some : IsDigits digits → IsFraction ('.' :: digits)

inductive IsExponent : List Char → Prop
  | none : IsExponent []
  | some : e = 'e' ∨ e = 'E' → sign = [] ∨ sign = ['+'] ∨ sign = ['-'] → IsDigits digits →
    IsExponent (e :: sign ++ digits)

def IsNumber (text : List Char) : Prop :=
  ∃ sign int fraction exponent, text = sign ++ int ++ fraction ++ exponent ∧
    (sign = [] ∨ sign = ['-']) ∧ IsInt int ∧ IsFraction fraction ∧ IsExponent exponent

mutual

inductive Value : List Char → Json → List Char → Prop
  | null : Value ('n' :: 'u' :: 'l' :: 'l' :: rest) .null rest
  | true : Value ('t' :: 'r' :: 'u' :: 'e' :: rest) (.bool true) rest
  | false : Value ('f' :: 'a' :: 'l' :: 's' :: 'e' :: rest) (.bool false) rest
  | number : IsNumber text → Value (text ++ rest) (.number text) rest
  | string : Chars cs text rest → Value ('"' :: cs) (.string text) rest
  | emptyArray : Ws cs (']' :: rest) → Value ('[' :: cs) (.array []) rest
  | array : Elements cs elements rest → Value ('[' :: cs) (.array elements) rest
  | emptyObject : Ws cs ('\x7d' :: rest) → Value ('\x7b' :: cs) (.object []) rest
  | object : Members cs members rest → Value ('\x7b' :: cs) (.object members) rest

-- What stands in brackets behind the opening one.
inductive Elements : List Char → List Json → List Char → Prop
  | last : Ws cs₁ cs₂ → Value cs₂ value cs₃ → Ws cs₃ (']' :: rest) →
    Elements cs₁ [value] rest
  | cons : Ws cs₁ cs₂ → Value cs₂ value cs₃ → Ws cs₃ (',' :: cs₄) → Elements cs₄ elements rest →
    Elements cs₁ (value :: elements) rest

inductive Member : List Char → List Char × Json → List Char → Prop
  | mk : Ws cs₁ ('"' :: cs₂) → Chars cs₂ name cs₃ → Ws cs₃ (':' :: cs₄) → Ws cs₄ cs₅ →
    Value cs₅ value rest → Member cs₁ (name, value) rest

inductive Members : List Char → List (List Char × Json) → List Char → Prop
  | last : Member cs₁ member cs₂ → Ws cs₂ ('\x7d' :: rest) → Members cs₁ [member] rest
  | cons : Member cs₁ member cs₂ → Ws cs₂ (',' :: cs₃) → Members cs₃ members rest →
    Members cs₁ (member :: members) rest

end

-- The whole text is a value.
def Text (text : List Char) (value : Json) : Prop :=
  ∃ cs rest, Ws text cs ∧ Value cs value rest ∧ Ws rest []

theorem ws_cons_iff (h : ¬isWs c) : Ws (c :: cs) rest ↔ rest = c :: cs := by
  constructor
  · rintro (_ | ⟨hc, -⟩)
    · rfl
    · exact absurd hc h
  · rintro rfl
    exact .nil

section Chars

variable {c e : Char} {cs text rest tail : List Char}

theorem chars_close_iff : Chars ('"' :: cs) text rest ↔ text = [] ∧ rest = cs := by
  constructor
  · intro h
    cases h
    case close => exact ⟨rfl, rfl⟩
    case unescaped hc _ => exact absurd rfl hc.2.1
  · rintro ⟨rfl, rfl⟩
    exact .close

theorem chars_cons_iff (hq : c ≠ '"') (hb : c ≠ '\\') :
    Chars (c :: cs) text rest ↔
      IsUnescaped c ∧ ∃ text', text = c :: text' ∧ Chars cs text' rest := by
  constructor
  · intro h
    cases h
    case close => exact absurd rfl hq
    case unescaped text' hc h => exact ⟨hc, text', rfl, h⟩
    all_goals exact absurd rfl hb
  · rintro ⟨hc, text', rfl, h⟩
    exact .unescaped hc h

theorem chars_escape_iff (he : unescape e = some c) : Chars ('\\' :: e :: cs) text rest ↔
    ∃ text', text = c :: text' ∧ Chars cs text' rest := by
  constructor
  · intro h
    cases h
    case unescaped hc _ => exact absurd rfl hc.2.2
    case escape d text' hd h =>
      obtain rfl := Option.some.inj (he.symm.trans hd)
      exact ⟨text', rfl, h⟩
    all_goals cases he
  · rintro ⟨text', rfl, h⟩
    exact .escape he h

-- Strings that are written character by character.
theorem chars_flatMap_iff {encode : Char → List Char} {ok : Char → Prop}
    (h : ∀ c cs text rest, Chars (encode c ++ cs) text rest ↔
      ok c ∧ ∃ text', text = c :: text' ∧ Chars cs text' rest) (s : List Char) :
    Chars (s.flatMap encode ++ '"' :: tail) text rest ↔
      (∀ c ∈ s, ok c) ∧ text = s ∧ rest = tail := by
  induction s generalizing text
  case nil => simp [chars_close_iff]
  case cons c s hi =>
    rw [List.flatMap_cons, List.append_assoc, h, List.forall_mem_cons]
    simp only [hi]
    constructor
    · rintro ⟨hc, text', rfl, hs, rfl, rfl⟩
      exact ⟨⟨hc, hs⟩, rfl, rfl⟩
    · rintro ⟨⟨hc, hs⟩, rfl, rfl⟩
      exact ⟨hc, s, rfl, hs, rfl, rfl⟩

end Chars

section Value

variable {cs text rest : List Char}

theorem value_string_iff : Value ('"' :: cs) (.string text) rest ↔ Chars cs text rest := by
  constructor
  · intro h
    generalize hi : '"' :: cs = input at h
    cases h
    case string h => exact (List.cons.inj hi).2 ▸ h
  · exact .string

theorem value_object_iff {members : List (List Char × Json)} (hm : members ≠ []) :
    Value ('\x7b' :: cs) (.object members) rest ↔ Members cs members rest := by
  constructor
  · intro h
    generalize hi : '\x7b' :: cs = input at h
    cases h
    case emptyObject => exact absurd rfl hm
    case object h => exact (List.cons.inj hi).2 ▸ h
  · exact .object

theorem value_number_iff (hn : IsNumber text) :
    Value (text ++ cs) (.number text) rest ↔ rest = cs := by
  constructor
  · intro h
    generalize hi : text ++ cs = input at h
    cases h
    case number => exact (List.append_cancel_left hi).symm
  · rintro rfl
    exact .number hn

theorem value_true_iff : Value ('t' :: 'r' :: 'u' :: 'e' :: cs) (.bool true) rest ↔ rest = cs := by
  constructor
  · intro h
    generalize hi : 't' :: 'r' :: 'u' :: 'e' :: cs = input at h
    cases h
    simpa using hi.symm
  · rintro rfl
    exact .true

theorem value_false_iff :
    Value ('f' :: 'a' :: 'l' :: 's' :: 'e' :: cs) (.bool false) rest ↔ rest = cs := by
  constructor
  · intro h
    generalize hi : 'f' :: 'a' :: 'l' :: 's' :: 'e' :: cs = input at h
    cases h
    simpa using hi.symm
  · rintro rfl
    exact .false

end Value

-- The text stands for the value exactly under the condition.
structure Spells (text : List Char) (value : Json) (ok : Prop) : Prop where
  head : ∃ c cs, text = c :: cs ∧ ¬isWs c
  iff  : ∀ rest rest', Value (text ++ rest) value rest' ↔ ok ∧ rest' = rest

namespace Spells

theorem number (h : IsNumber text) (hw : ∃ c cs, text = c :: cs ∧ ¬isWs c) :
    Spells text (.number text) True where
  head := hw
  iff _ _ := by rw [value_number_iff h, true_and]

theorem bool (b : Bool) : Spells (toString b).toList (.bool b) True where
  head := by cases b <;> exact ⟨_, _, rfl, by decide⟩
  iff _ _ := by
    cases b
    case false => exact value_false_iff.trans (iff_of_eq (true_and _)).symm
    case true => exact value_true_iff.trans (iff_of_eq (true_and _)).symm

theorem string {encode : Char → List Char} {ok : Char → Prop}
    (h : ∀ c cs text rest, Chars (encode c ++ cs) text rest ↔
      ok c ∧ ∃ text', text = c :: text' ∧ Chars cs text' rest) (s : List Char) :
    Spells ('"' :: (s.flatMap encode ++ ['"'])) (.string s) (∀ c ∈ s, ok c) where
  head := ⟨_, _, rfl, by decide⟩
  iff rest rest' := by
    have hc : Chars (s.flatMap encode ++ '"' :: rest) s rest' ↔ _ := chars_flatMap_iff h s
    rw [List.cons_append, value_string_iff, List.append_assoc]
    exact hc.trans (and_congr_right fun _ => and_iff_right rfl)

end Spells

-- A member of an object that is written without whitespace.
structure Field where
  name     : List Char
  spelling : List Char
  value    : Json
  ok       : Prop
  plain    : ∀ c ∈ name, IsUnescaped c
  spells   : Spells spelling value ok

namespace Field

def write (f : Field) : List Char := '"' :: (f.name ++ '"' :: ':' :: f.spelling)

def writeAll : List Field → List Char
  | []      => []
  | [f]     => f.write
  | f :: fs => f.write ++ ',' :: writeAll fs

variable (f : Field)

theorem chars_name_iff : Chars (f.name ++ '"' :: tail) text rest ↔ text = f.name ∧ rest = tail := by
  have hn := f.plain
  generalize f.name = n at *
  induction n generalizing text
  case nil => exact chars_close_iff
  case cons c n hi =>
    rw [List.forall_mem_cons] at hn
    rw [List.cons_append, chars_cons_iff hn.1.2.1 hn.1.2.2, and_iff_right hn.1]
    simp only [hi hn.2]
    constructor
    · rintro ⟨text', rfl, rfl, rfl⟩
      exact ⟨rfl, rfl⟩
    · rintro ⟨rfl, rfl⟩
      exact ⟨n, rfl, rfl, rfl⟩

theorem ws_spelling_iff : Ws (f.spelling ++ tail) rest ↔ rest = f.spelling ++ tail := by
  obtain ⟨c, cs, hc, hw⟩ := f.spells.head
  rw [hc]
  exact ws_cons_iff hw

theorem write_append (tail : List Char) :
    f.write ++ tail = '"' :: (f.name ++ '"' :: ':' :: (f.spelling ++ tail)) := by
  simp [write]

theorem member_iff : Member (f.write ++ tail) (f.name, f.value) rest ↔ f.ok ∧ rest = tail := by
  rw [← f.spells.iff tail rest, write_append]
  constructor
  · intro h
    cases h
    case mk cs₂ cs₃ cs₄ cs₅ h₃ h₄ h₁ h₂ h₅ =>
      rw [ws_cons_iff (by decide)] at h₁
      obtain rfl := (List.cons.inj h₁).2
      obtain ⟨-, rfl⟩ := f.chars_name_iff.mp h₂
      rw [ws_cons_iff (by decide)] at h₃
      obtain rfl := (List.cons.inj h₃).2
      obtain rfl := f.ws_spelling_iff.mp h₄
      exact h₅
  · exact fun h => .mk .nil (f.chars_name_iff.mpr ⟨rfl, rfl⟩) .nil .nil h

theorem writeAll_cons (hn : fs ≠ []) : writeAll (f :: fs) = f.write ++ ',' :: writeAll fs := by
  cases fs
  case nil => exact absurd rfl hn
  case cons => rfl

theorem writeAll_append (hf : fs ≠ []) (hg : gs ≠ []) :
    writeAll (fs ++ gs) = writeAll fs ++ ',' :: writeAll gs := by
  induction fs
  case nil => exact absurd rfl hf
  case cons f fs hi =>
    cases fs
    case nil => exact f.writeAll_cons hg
    case cons g fs =>
      rw [List.cons_append, writeAll_cons _ (by simp), hi (by simp), writeAll_cons f (by simp),
        List.append_assoc, List.cons_append]

-- Members are read one after the other.
theorem members_iff (fs : List Field) (hn : fs ≠ []) :
    Members (writeAll fs ++ '\x7d' :: tail) (fs.map fun f => (f.name, f.value)) rest ↔
      (∀ f ∈ fs, f.ok) ∧ rest = tail := by
  induction fs
  case nil => exact absurd rfl hn
  case cons f fs hi =>
    rw [List.forall_mem_cons, List.map_cons]
    cases fs
    case nil =>
      rw [writeAll, List.map_nil]
      constructor
      · intro h
        cases h
        case last h hw =>
          obtain ⟨hok, rfl⟩ := f.member_iff.mp h
          rw [ws_cons_iff (by decide)] at hw
          exact ⟨⟨hok, by simp⟩, (List.cons.inj hw).2⟩
        case cons h => cases h
      · rintro ⟨⟨hok, -⟩, rfl⟩
        exact .last (f.member_iff.mpr ⟨hok, rfl⟩) .nil
    case cons g fs =>
      rw [writeAll_cons f (by simp), List.append_assoc, List.cons_append]
      constructor
      · intro h
        cases h
        case cons hw h hm =>
          obtain ⟨hok, rfl⟩ := f.member_iff.mp h
          rw [ws_cons_iff (by decide)] at hw
          obtain rfl := (List.cons.inj hw).2
          obtain ⟨hall, rfl⟩ := (hi (by simp)).mp hm
          exact ⟨⟨hok, hall⟩, rfl⟩
      · rintro ⟨⟨hok, hall⟩, rfl⟩
        exact .cons (f.member_iff.mpr ⟨hok, rfl⟩) .nil ((hi (by simp)).mpr ⟨hall, rfl⟩)

-- An object that is written without whitespace is one exactly if all its members are.
theorem text_object_iff (fs : List Field) (hn : fs ≠ []) :
    Text ('\x7b' :: (writeAll fs ++ ['\x7d'])) (.object (fs.map fun f => (f.name, f.value))) ↔
      ∀ f ∈ fs, f.ok := by
  have hm : fs.map (fun f => (f.name, f.value)) ≠ [] := by simpa using hn
  constructor
  · rintro ⟨cs, rest, hw, hv, -⟩
    rw [ws_cons_iff (by decide)] at hw
    subst hw
    exact ((members_iff fs hn).mp ((value_object_iff hm).mp hv)).1
  · exact fun h => ⟨_, [], .nil, .object ((members_iff fs hn).mpr ⟨h, rfl⟩), .nil⟩

end Field

end Json
