import OxigraphCloud.Coprocessor.Plugin
import OxigraphCloud.Objects.Theorems.BinaryEncoder

namespace Coprocessor

namespace Checked

theorem sliceFrom_append (before rest : Bytes) (h : start = before.length) :
    (sliceFrom (before ++ rest) start : Checked ε Bytes) = pure rest := by
  subst h
  simp [sliceFrom]

theorem slice_append {before data rest : Bytes} :
    (slice (before ++ (data ++ rest)) before.length (before.length + data.length) :
      Checked ε Bytes) = pure data := by
  simp [slice, List.take_append]

end Checked

-- The plugin computes the length of a written term from its type alone.
theorem encodedTermLenFuel_writeTerm {t : EncodedTerm} (h : t.IsTerm) (fuel : ℕ)
    (hf : (writeTerm t).length ≤ fuel) (rest : Bytes) :
    encodedTermLenFuel fuel (writeTerm t ++ rest) = pure (writeTerm t).length := by
  induction t generalizing fuel rest
  case defaultGraph => contradiction
  case triple s p o hs hp ho =>
    have ⟨h₁, h₂, h₃⟩ := h
    cases fuel
    case zero => simp [writeTerm] at hf
    case succ fuel =>
      simp only [writeTerm, List.cons_append, List.length_cons, List.length_append,
        List.append_assoc] at hf ⊢
      have e₁ := hs h₁ fuel (by omega) (writeTerm p ++ (writeTerm o ++ rest))
      have e₂ := hp h₂ fuel (by omega) (writeTerm o ++ rest)
      have e₃ := ho h₃ fuel (by omega) rest
      -- Where the loop over the nested terms finds each of them.
      have s₁ {x : Bytes} :
          (.sliceFrom (TermType.triple.id :: x) 1 : Checked String Bytes) = pure x :=
        Checked.sliceFrom_append [_] x rfl
      have s₂ {x y : Bytes} :
          (.sliceFrom (TermType.triple.id :: (x ++ y)) (1 + x.length) : Checked String Bytes) =
            pure y :=
        Checked.sliceFrom_append (_ :: x) y (by simp; omega)
      have s₃ {x y z : Bytes} :
          (.sliceFrom (TermType.triple.id :: (x ++ (y ++ z))) (1 + x.length + y.length) :
            Checked String Bytes) = pure z := by
        rw [← List.append_assoc]
        exact Checked.sliceFrom_append (_ :: (x ++ y)) z (by simp; omega)
      simp only [encodedTermLenFuel, List.range, List.range.loop, List.foldlM_cons,
        List.foldlM_nil, TermType.id] at s₁ s₂ s₃ ⊢
      simp only [UInt8.reduceToNat, s₁, s₂, s₃, e₁, e₂, e₃, pure_bind]
      congr 1
      omega
  case booleanLiteral b =>
    cases b <;> cases fuel <;> simp_all [writeTerm, encodedTermLenFuel, TermType.id]
  all_goals
    cases fuel
    case zero => simp [writeTerm] at hf
    case succ => simp [writeTerm, encodedTermLenFuel, TermType.id]

theorem encodedTermLen_append {t : EncodedTerm} (h : t.IsTerm) (rest : Bytes) :
    encodedTermLen (writeTerm t ++ rest) = pure (writeTerm t).length :=
  encodedTermLenFuel_writeTerm h _ (by simp; omega) rest

-- The terms of a key are found by their number.
theorem extractTermBytesFrom_flatMap {ts : List EncodedTerm} (h : ∀ t ∈ ts, t.IsTerm)
    (before : Bytes) (position : ℕ) :
    extractTermBytesFrom (before ++ ts.flatMap writeTerm) before.length position =
      match ts[position]? with
      | some t => pure (writeTerm t)
      | none   => throw "key too short for requested term position" := by
  induction position generalizing ts before <;> cases ts
  case zero.nil => rw [extractTermBytesFrom]; simp
  case succ.nil => rw [extractTermBytesFrom]; simp
  case zero.cons t ts =>
    have ⟨ht, _⟩ := List.forall_mem_cons.mp h
    have hl : 0 < (writeTerm t).length := List.length_pos_iff.mpr ht.writeTerm_ne_nil
    have hn : ¬(before ++ (writeTerm t ++ ts.flatMap writeTerm)).length ≤ before.length := by
      simp only [List.length_append]; omega
    rw [extractTermBytesFrom]
    simp only [List.flatMap_cons, hn, if_false, pure_bind, List.drop_left,
      encodedTermLen_append ht, Checked.slice_append, List.getElem?_cons_zero]
  case succ.cons position hi t ts =>
    have ⟨ht, hts⟩ := List.forall_mem_cons.mp h
    have hl : 0 < (writeTerm t).length := List.length_pos_iff.mpr ht.writeTerm_ne_nil
    have hn : ¬(before ++ (writeTerm t ++ ts.flatMap writeTerm)).length ≤ before.length := by
      simp only [List.length_append]; omega
    have hr := hi hts (before ++ writeTerm t)
    rw [List.append_assoc, List.length_append] at hr
    rw [extractTermBytesFrom]
    simp only [List.flatMap_cons, hn, if_false, pure_bind, List.drop_left,
      encodedTermLen_append ht, hr, List.getElem?_cons_succ]

theorem extractTermBytes_flatMap {ts : List EncodedTerm} (h : ∀ t ∈ ts, t.IsTerm)
    (position : ℕ) :
    extractTermBytes (ts.flatMap writeTerm) position =
      match ts[position]? with
      | some t => pure (writeTerm t)
      | none   => throw "key too short for requested term position" :=
  extractTermBytesFrom_flatMap h [] position

theorem extractConcatTermBytes_flatMap {ts : List EncodedTerm} (h : ∀ t ∈ ts, t.IsTerm)
    (positions : List ℕ) :
    extractConcatTermBytes (ts.flatMap writeTerm) positions =
      match positions.mapM (ts[·]?) with
      | some us => pure (us.flatMap writeTerm)
      | none    => throw "key too short for requested term position" := by
  suffices hs : ∀ result : Bytes,
      positions.foldlM (fun result position => do
        return result ++ (← extractTermBytes (ts.flatMap writeTerm) position)) result =
      match positions.mapM (ts[·]?) with
      | some us => pure (result ++ us.flatMap writeTerm)
      | none    => throw "key too short for requested term position" by
    exact hs []
  induction positions
  case nil => simp
  case cons position positions hi =>
    intro result
    simp only [List.foldlM_cons, List.mapM_cons, bind_assoc]
    rw [extractTermBytes_flatMap h position]
    cases ts[position]?
    case none => rfl
    case some t =>
      simp only [pure_bind, Option.bind_eq_bind, Option.bind_some]
      rw [hi]
      cases positions.mapM (ts[·]?)
      case none => rfl
      case some us => simp

end Coprocessor
