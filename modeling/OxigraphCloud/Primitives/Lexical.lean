import Mathlib

-- Languages whose words have values, as the productions of a grammar describe them, and the parsers
-- that read them. Nothing in here is specific to RDF.

-- The words of a language with the values that they stand for.
def Lexical (α : Type) := List Char → α → Prop

namespace Lexical

variable {α β : Type} {g g' : Lexical α} {h : α → Lexical β}

-- Words are put one after the other.
instance instMonad : Monad Lexical where
  pure a     := fun word b => word = [] ∧ b = a
  bind g h := fun word b => ∃ left right a, word = left ++ right ∧ g left a ∧ h a right b

instance instOrElse : OrElse (Lexical α) where
  orElse g g' := fun word a => g word a ∨ g' () word a

def char (c : Char) : Lexical Unit := fun word _ => word = [c]

-- A digit between the bounds.
def digit (lower upper : ℕ) : Lexical ℕ :=
  fun word d => word = [d.digitChar] ∧ lower ≤ d ∧ d ≤ upper

def opt (g : Lexical α) : Lexical (Option α)
  | word, none   => word = []
  | word, some a => g word a

-- One or more words.
inductive Plus (g : Lexical α) : List Char → List α → Prop
  | one : g word a → Plus g word [a]
  | more : g left a → Plus g right values → Plus g (left ++ right) (a :: values)

def plus (g : Lexical α) : Lexical (List α) := Plus g

-- A condition on the values of other words.
def require (condition : Prop) : Lexical Unit := fun word _ => word = [] ∧ condition

-- A value that does not come from a word.
def given (o : Option α) : Lexical α := fun word a => word = [] ∧ o = some a

-- The words for the values that a function takes.
def comap (f : α → β) (g : Lexical β) : Lexical α := fun word a => g word (f a)

@[ext]
theorem ext (h : ∀ word a, g word a ↔ g' word a) : g = g' :=
  funext fun word => funext fun a => propext (h word a)

@[simp]
theorem pure_iff {a b : α} : (pure a : Lexical α) word b ↔ word = [] ∧ b = a := .rfl

theorem bind_iff {b : β} :
    (g >>= h) word b ↔ ∃ left right a, word = left ++ right ∧ g left a ∧ h a right b :=
  .rfl

@[simp]
theorem orElse_iff : (g <|> g') word a ↔ g word a ∨ g' word a := .rfl

@[simp]
theorem char_bind_iff {h : Unit → Lexical β} :
    (char c >>= h) word b ↔ ∃ right, word = c :: right ∧ h () right b where
  mp := by
    rintro ⟨_, right, _, rfl, rfl, hb⟩
    exact ⟨right, rfl, hb⟩
  mpr := by
    rintro ⟨right, rfl, hb⟩
    exact ⟨[c], right, (), rfl, rfl, hb⟩

theorem digit_bind_iff {h : ℕ → Lexical β} : (digit lower upper >>= h) word b ↔
    ∃ d right, word = d.digitChar :: right ∧ (lower ≤ d ∧ d ≤ upper) ∧ h d right b where
  mp := by
    rintro ⟨_, right, d, rfl, ⟨rfl, hd⟩, hb⟩
    exact ⟨d, right, rfl, hd, hb⟩
  mpr := by
    rintro ⟨d, right, rfl, hd, hb⟩
    exact ⟨[_], right, d, rfl, ⟨rfl, hd⟩, hb⟩

@[simp]
theorem require_bind_iff {h : Unit → Lexical β} :
    (require condition >>= h) word b ↔ condition ∧ h () word b where
  mp := by
    rintro ⟨_, right, _, rfl, ⟨rfl, hc⟩, hb⟩
    exact ⟨hc, hb⟩
  mpr := by
    rintro ⟨hc, hb⟩
    exact ⟨[], word, (), rfl, ⟨rfl, hc⟩, hb⟩

@[simp]
theorem given_bind_iff : (given o >>= h) word b ↔ ∃ a, o = some a ∧ h a word b where
  mp := by
    rintro ⟨_, right, a, rfl, ⟨rfl, ha⟩, hb⟩
    exact ⟨a, ha, hb⟩
  mpr := by
    rintro ⟨a, ha, hb⟩
    exact ⟨[], word, a, rfl, ⟨rfl, ha⟩, hb⟩

theorem plus_digit_iff : plus (digit lower upper) word values ↔
    values ≠ [] ∧ word = values.map Nat.digitChar ∧ ∀ d ∈ values, lower ≤ d ∧ d ≤ upper where
  mp h := by
    induction h with
    | one h =>
      obtain ⟨rfl, h⟩ := h
      simpa using h
    | more h _ ih =>
      obtain ⟨rfl, h⟩ := h
      obtain ⟨-, rfl, ih⟩ := ih
      exact ⟨by simp, rfl, List.forall_mem_cons.mpr ⟨h, ih⟩⟩
  mpr := by
    rintro ⟨hn, rfl, hd⟩
    induction values with
    | nil => contradiction
    | cons d values ih =>
      obtain ⟨h, hd⟩ := List.forall_mem_cons.mp hd
      rcases values.eq_nil_or_concat with rfl | hv
      case inl => exact .one ⟨rfl, h⟩
      case inr => exact .more ⟨rfl, h⟩ (ih (by rintro rfl; simp at hv) hd)

-- The parser reads the words of the language, if what comes after them satisfies a condition.
structure Reads (p : StateT (List Char) Option α) (g : Lexical α) (Follows : List Char → Prop) :
    Prop where
  sound {input a rest} : p input = some (a, rest) → ∃ word, input = word ++ rest ∧ g word a
  complete {word a rest} : g word a → Follows rest → p (word ++ rest) = some (a, rest)

namespace Reads

variable {p : StateT (List Char) Option α} {f : α → StateT (List Char) Option β}
  {Follows Follows' : List Char → Prop}

theorem pure (a : α) : Reads (pure a) (pure a) Follows where
  sound hp := by
    cases hp
    exact ⟨[], rfl, rfl, rfl⟩
  complete := by
    rintro word _ rest ⟨rfl, rfl⟩ -
    rfl

theorem congr (hp : Reads p g Follows) (hg : ∀ word a, g word a ↔ g' word a) : Reads p g' Follows :=
  Lexical.ext hg ▸ hp

theorem mono (hp : Reads p g Follows) (hf : ∀ rest, Follows' rest → Follows rest) :
    Reads p g Follows' where
  sound          := hp.sound
  complete hg hr := hp.complete hg (hf _ hr)

-- The second parser only has to read what the first one can leave, and what it reads has to be able
-- to come after the first word.
theorem bind_of_stops {Stops : List Char → Prop} (hp : Reads p g Follows)
    (hs : ∀ input a rest, p input = some (a, rest) → Stops rest)
    (hf : ∀ a input b rest, Stops input → f a input = some (b, rest) →
      ∃ word, input = word ++ rest ∧ h a word b)
    (hc : ∀ a word b rest, h a word b → Follows' rest →
      Follows (word ++ rest) ∧ f a (word ++ rest) = some (b, rest)) :
    Reads (p >>= f) (g >>= h) Follows' where
  sound := by
    intro input b rest hpf
    obtain ⟨⟨a, middle⟩, ha, hb⟩ := Option.bind_eq_some_iff.mp hpf
    obtain ⟨left, hi, hg⟩ := hp.sound ha
    obtain ⟨right, rfl, hh⟩ := hf a _ _ _ (hs _ _ _ ha) hb
    rw [hi, ← List.append_assoc]
    exact ⟨left ++ right, rfl, left, right, a, rfl, hg, hh⟩
  complete := by
    rintro _ b rest ⟨left, right, a, rfl, hg, hh⟩ hr
    obtain ⟨hl, hb⟩ := hc _ _ _ _ hh hr
    rw [List.append_assoc]
    exact Option.bind_eq_some_iff.mpr ⟨(a, right ++ rest), hp.complete hg hl, hb⟩

theorem bind (hp : Reads p g Follows) (hf : ∀ a, Reads (f a) (h a) Follows')
    (ht : ∀ a word b rest, h a word b → Follows' rest → Follows (word ++ rest)) :
    Reads (p >>= f) (g >>= h) Follows' :=
  hp.bind_of_stops (fun _ _ _ _ => trivial) (fun a _ _ _ _ => (hf a).sound)
    fun a word b rest hh hr => ⟨ht a word b rest hh hr, (hf a).complete hh hr⟩

-- A parser that consumes nothing comes first.
theorem guard_bind [Decidable c] {f : Unit → StateT (List Char) Option β} {h : Unit → Lexical β}
    (hf : Reads (f ()) (h ()) Follows) : Reads (guard c >>= f) (require c >>= h) Follows := by
  by_cases hc : c
  case pos =>
    have hp : (guard c >>= f) = f () := by
      rw [guard, if_pos hc]
      rfl
    rw [hp]
    exact hf.congr fun word a => by simp [hc]
  case neg =>
    have hp : (guard c >>= f) = fun _ => none := by
      rw [guard, if_neg hc]
      rfl
    rw [hp]
    exact {
      sound    := (by cases ·)
      complete := fun h => by simp [hc] at h }

theorem given_bind {o : Option α} (hf : ∀ a, Reads (f a) (h a) Follows) :
    Reads (liftM o >>= f) (given o >>= h) Follows := by
  cases o
  case none => exact { sound := (by cases ·), complete := fun h => by simp at h }
  case some a => exact (hf a).congr fun word b => by simp

theorem given (o : Option α) : Reads (liftM o) (given o) Follows := by
  cases o
  case none => exact { sound := (by cases ·), complete := fun h => by cases h.2 }
  case some a => exact (pure a).congr fun word b => by simp [Lexical.given, eq_comm]

-- The input as a whole is a word.
theorem eq_some_nil_iff (hp : Reads p g Follows) (hn : Follows []) :
    p word = some (a, []) ↔ g word a where
  mp h := by
    obtain ⟨_, rfl, hg⟩ := hp.sound h
    rwa [List.append_nil]
  mpr h := by simpa using hp.complete h hn

end Reads

end Lexical
