import OxigraphCloud.Objects.BinaryEncoder

-- The byte layout of stored terms.

-- A part of what follows the type of a term: any bytes of a fixed number, or a small string.
inductive TermField
  | raw (length : ℕ)
  | text
  deriving DecidableEq

def TermField.length : TermField → ℕ
  | raw length => length
  | text       => 16

@[simp]
theorem TermField.length_raw : (raw n).length = n := rfl

@[simp]
theorem TermField.length_text : text.length = 16 := rfl

namespace TermType

-- A triple has no fields, it is followed by three terms. Languages and datatypes come before
-- values.
def fields : TermType → Option (List TermField)
  | namedNodeId | numericalBlankNodeId | bigBlankNodeId | bigStringLiteral | decimalLiteral
  | dayTimeDurationLiteral => some [.raw 16]
  | smallBlankNodeId | smallStringLiteral => some [.text]
  | smallSmallLangStringLiteral | ltrSmallSmallDirLangStringLiteral
  | rtlSmallSmallDirLangStringLiteral => some [.text, .text]
  | smallBigLangStringLiteral | ltrSmallBigDirLangStringLiteral | rtlSmallBigDirLangStringLiteral
  | smallTypedLiteral => some [.raw 16, .text]
  | bigSmallLangStringLiteral | ltrBigSmallDirLangStringLiteral
  | rtlBigSmallDirLangStringLiteral => some [.text, .raw 16]
  | bigBigLangStringLiteral | ltrBigBigDirLangStringLiteral | rtlBigBigDirLangStringLiteral
  | bigTypedLiteral => some [.raw 16, .raw 16]
  | booleanLiteralTrue | booleanLiteralFalse => some []
  | floatLiteral => some [.raw 4]
  | doubleLiteral | integerLiteral | yearMonthDurationLiteral => some [.raw 8]
  | dateTimeLiteral | timeLiteral | dateLiteral | gYearMonthLiteral | gYearLiteral
  | gMonthDayLiteral | gDayLiteral | gMonthLiteral => some [.raw 18]
  | durationLiteral => some [.raw 24]
  | triple | starTriple => none

-- The length of the fields.
def width (fs : List TermField) : ℕ := (fs.map TermField.length).sum

@[simp]
theorem width_nil : width [] = 0 := rfl

@[simp]
theorem width_cons (f : TermField) (fs : List TermField) :
    width (f :: fs) = f.length + width fs := by
  simp [width]

end TermType

namespace TermField

-- The length of a small string is over the number of its bytes.
def Overlong : TermField → Bytes → Prop
  | raw _, _ => False
  | text, bs => 16 < lenByte bs

def Proper : TermField → Bytes → Prop
  | raw _, _ => True
  | text, bs => lenByte bs ≤ 16 ∧ IsUtf8 (bs.take (lenByte bs))

def AllProper : List TermField → Bytes → Prop
  | [], _       => True
  | f :: fs, bs => f.Proper (bs.take f.length) ∧ AllProper fs (bs.drop f.length)

-- The last small string is looked at first.
def OneOverlong : List TermField → Bytes → Prop
  | [], _       => False
  | f :: fs, bs => OneOverlong fs (bs.drop f.length) ∨
    AllProper fs (bs.drop f.length) ∧ f.Overlong (bs.take f.length)

end TermField

-- The complete and proper byte strings of terms. Triples may have their type or the one that was
-- used before.
inductive TermForm : Bytes → Prop
  | plain {type : TermType} :
    type.fields = some fs → bs.length = TermType.width fs → TermField.AllProper fs bs →
    TermForm (type.id :: bs)
  | triple {type : TermType} :
    type.fields = none → TermForm a → TermForm b → TermForm c →
    TermForm (type.id :: (a ++ (b ++ c)))

-- Reading terms from the bytes, one behind the other and the nested ones too, gets to a term at
-- which `P` holds of what is left.
inductive Reaches (P : Bytes → Prop) : (terms : ℕ) → Bytes → Prop
  | here : P bs → Reaches P (n + 1) bs
  | nested {type : TermType} :
    type.fields = none → Reaches P 3 bs → Reaches P (n + 1) (type.id :: bs)
  | next : TermForm a → Reaches P n bs → Reaches P (n + 1) (a ++ bs)

namespace Reaches

-- A term with a small string whose length is too large.
def Overlong (bs : Bytes) : Prop :=
  ∃ (type : TermType) (fs : List TermField) (body : Bytes), bs = type.id :: body ∧
    type.fields = some fs ∧ TermType.width fs ≤ body.length ∧ TermField.OneOverlong fs body

-- A term that is not complete.
def Truncated (bs : Bytes) : Prop :=
  bs = [] ∨ ∃ (type : TermType) (fs : List TermField) (body : Bytes), bs = type.id :: body ∧
    type.fields = some fs ∧ body.length < TermType.width fs

-- A triple with the type that was used before.
def Legacy (bs : Bytes) : Prop := bs.head? = some TermType.starTriple.id

end Reaches

namespace TermField

-- The bytes of a field say the same. Of a small string only the text counts.
def Agree : TermField → Bytes → Bytes → Prop
  | raw _, bs, bs' => bs = bs'
  | text, bs, bs'  => bs.take (lenByte bs) = bs'.take (lenByte bs')

def AllAgree : List TermField → Bytes → Bytes → Prop
  | [], _, _         => True
  | f :: fs, bs, bs' =>
    f.Agree (bs.take f.length) (bs'.take f.length) ∧
      AllAgree fs (bs.drop f.length) (bs'.drop f.length)

end TermField

-- The byte strings of terms that only differ in the bytes of small strings that are not part of
-- their texts, and in the types of triples.
inductive Respells : Bytes → Bytes → Prop
  | plain {type : TermType} :
    type.fields = some fs → bs.length = TermType.width fs → TermField.AllProper fs bs →
    bs'.length = TermType.width fs → TermField.AllProper fs bs' → TermField.AllAgree fs bs bs' →
    Respells (type.id :: bs) (type.id :: bs')
  | triple {type type' : TermType} :
    type.fields = none → type'.fields = none → Respells a a' → Respells b b' → Respells c c' →
    Respells (type.id :: (a ++ (b ++ c))) (type'.id :: (a' ++ (b' ++ c')))
