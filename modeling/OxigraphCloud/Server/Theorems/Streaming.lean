import OxigraphCloud.Server.Streaming

-- What a streaming response delivers.

namespace ReadForWrite

variable {O : Type} {addMoreData : O → Bytes × Except String (Option O)}

-- The chunks that a generator writes, from a state on, and the error that it ends with.
inductive Generates (addMoreData : O → Bytes × Except String (Option O)) :
    O → List Bytes → Option String → Prop
  | last : addMoreData s = (chunk, .ok none) → Generates addMoreData s [chunk] none
  | fail : addMoreData s = (chunk, .error e) → Generates addMoreData s [chunk] (some e)
  | next : addMoreData s = (chunk, .ok (some s')) → Generates addMoreData s' chunks e →
    Generates addMoreData s (chunk :: chunks) e

def errorText (e : Option String) : Bytes := e.elim [] SmallString.strBytes

-- What is still to be delivered, and how often the buffer has to be filled for this.
inductive Remains (addMoreData : O → Bytes × Except String (Option O)) (r : ReadForWrite O) :
    ℕ → Bytes → Prop
  | ended : r.position ≤ r.buffer.length → r.state = none →
    Remains addMoreData r 0 (r.buffer.drop r.position)
  | more : r.position ≤ r.buffer.length → r.state = some s → Generates addMoreData s chunks e →
    Remains addMoreData r chunks.length
      (r.buffer.drop r.position ++ (chunks.flatten ++ errorText e))

theorem Generates.refill_remains (h : Generates addMoreData s chunks e) :
    ∃ refills < chunks.length,
      Remains addMoreData (refill addMoreData s) refills (chunks.flatten ++ errorText e) := by
  cases h
  case last chunk ha =>
    refine ⟨0, Nat.zero_lt_one, ?_⟩
    rw [refill, ha, List.flatten_singleton, errorText, Option.elim_none, List.append_nil]
    exact .ended (Nat.zero_le _) rfl
  case fail chunk e ha =>
    refine ⟨0, Nat.zero_lt_one, ?_⟩
    rw [refill, ha, List.flatten_singleton]
    exact .ended (Nat.zero_le _) rfl
  case next chunk s' chunks ha hg =>
    refine ⟨chunks.length, Nat.lt_succ_self _, ?_⟩
    rw [refill, ha, List.flatten_cons, List.append_assoc]
    exact .more (Nat.zero_le _) rfl hg

section read

variable {r : ReadForWrite O}

theorem read_of_buffered (h : r.position ≠ r.buffer.length) :
    r.read addMoreData n fuel =
      some ((r.buffer.drop r.position).take (min (r.buffer.length - r.position) n),
        { r with position := r.position + min (r.buffer.length - r.position) n }) := by
  rw [read, if_neg h]

theorem read_of_ended (h : r.position = r.buffer.length) (hs : r.state = none) :
    r.read addMoreData n fuel = some ([], r) := by
  rw [read, if_pos h, hs]

theorem read_of_refill (h : r.position = r.buffer.length) (hs : r.state = some s) :
    r.read addMoreData n (fuel + 1) = (refill addMoreData s).read addMoreData n fuel := by
  rw [read, if_pos h, hs]

end read

-- Bytes that are in the buffer are delivered from there.
theorem Remains.advance (h : Remains addMoreData r refills rest)
    (hl : len ≤ r.buffer.length - r.position) :
    ∃ rest', rest = (r.buffer.drop r.position).take len ++ rest' ∧
      Remains addMoreData { r with position := r.position + len } refills rest' := by
  have hd : r.buffer.drop r.position =
      (r.buffer.drop r.position).take len ++ r.buffer.drop (r.position + len) := by
    rw [← List.drop_drop, List.take_append_drop]
  cases h
  case ended hp hs => exact ⟨_, hd, .ended (by simp; omega) hs⟩
  case more s chunks e hp hs hg =>
    refine ⟨r.buffer.drop (r.position + len) ++ (chunks.flatten ++ errorText e), ?_,
      .more (by simp; omega) hs hg⟩
    nth_rewrite 1 [hd]
    rw [List.append_assoc]

-- Before a read there are bytes in the buffer, or the response has ended, or the buffer is filled.
theorem Remains.cases (h : Remains addMoreData r refills rest) :
    r.position < r.buffer.length ∨
    (r.position = r.buffer.length ∧ r.state = none ∧ rest = []) ∨
    ∃ s, r.position = r.buffer.length ∧ r.state = some s ∧
      ∃ refills' < refills, Remains addMoreData (refill addMoreData s) refills' rest := by
  cases h
  case ended hp hs =>
    rcases hp.lt_or_eq with hp | hp
    · exact .inl hp
    · exact .inr (.inl ⟨hp, hs, by rw [hp, List.drop_length]⟩)
  case more s chunks e hp hs hg =>
    rcases hp.lt_or_eq with hp | hp
    · exact .inl hp
    · refine .inr (.inr ⟨s, hp, hs, ?_⟩)
      rw [hp, List.drop_length, List.nil_append]
      exact hg.refill_remains

-- What a read of at least one byte does: its bytes come first in what remains, and there are some
-- if something remains.
def Delivers (addMoreData : O → Bytes × Except String (Option O)) (n fuel refills : ℕ)
    (r : ReadForWrite O) (rest : Bytes) : Prop :=
  ∃ bytes r' refills' rest', r.read addMoreData n fuel = some (bytes, r') ∧
    Remains addMoreData r' refills' rest' ∧ refills' ≤ refills ∧ rest = bytes ++ rest' ∧
    bytes.length ≤ n ∧ (bytes = [] → rest = [])

theorem Remains.delivers_of_buffered (h : Remains addMoreData r refills rest)
    (hp : r.position < r.buffer.length) (hn : 1 ≤ n) :
    Delivers addMoreData n fuel refills r rest := by
  obtain ⟨rest', hr, h'⟩ := h.advance (Nat.min_le_left (r.buffer.length - r.position) n)
  refine ⟨_, _, _, _, read_of_buffered hp.ne, h', le_rfl, hr, ?_, fun hb => ?_⟩
  · rw [List.length_take]
    omega
  · have hl := congrArg List.length hb
    simp at hl
    omega

theorem Remains.delivers (h : Remains addMoreData r refills rest) (hf : refills ≤ fuel)
    (hn : 1 ≤ n) : Delivers addMoreData n fuel refills r rest := by
  induction fuel generalizing r refills rest
  case zero =>
    rcases h.cases with hp | ⟨hp, hs, rfl⟩ | ⟨s, -, -, refills', hl, -⟩
    · exact h.delivers_of_buffered hp hn
    · exact ⟨_, _, _, _, read_of_ended hp hs, h, le_rfl, rfl, Nat.zero_le _, fun _ => rfl⟩
    · omega
  case succ fuel hi =>
    rcases h.cases with hp | ⟨hp, hs, rfl⟩ | ⟨s, hp, hs, refills', hl, h'⟩
    · exact h.delivers_of_buffered hp hn
    · exact ⟨_, _, _, _, read_of_ended hp hs, h, le_rfl, rfl, Nat.zero_le _, fun _ => rfl⟩
    · obtain ⟨bytes, r', refills'', rest', hr, h'', hl', ho⟩ := hi h' (by omega)
      exact ⟨bytes, r', refills'', rest', (read_of_refill hp hs).trans hr, h'', by omega, ho⟩

-- The reads of a whole response. Only what comes after everything is empty.
theorem Remains.readAll (h : Remains addMoreData r refills rest) (hf : refills ≤ fuel)
    (hl : ∀ n ∈ lengths, 1 ≤ n) : ∃ outs rest', r.readAll addMoreData fuel lengths = some outs ∧
      rest = outs.flatten ++ rest' ∧ (rest.length ≤ lengths.length → rest' = []) ∧
      List.Forall₂ (fun out n => out.length ≤ n) outs lengths ∧
      ∀ before out after, outs = before ++ out :: after → (out = [] ↔ before.flatten = rest) := by
  induction lengths generalizing r refills rest
  case nil =>
    refine ⟨[], rest, rfl, rfl, fun h => List.eq_nil_of_length_eq_zero (by simpa using h), .nil, ?_⟩
    intro before out after ho
    simp at ho
  case cons n lengths hi =>
    rw [List.forall_mem_cons] at hl
    obtain ⟨bytes, r', refills', rest', hr, h', hle, rfl, hb, he⟩ := h.delivers hf hl.1
    obtain ⟨outs, rest'', ho, rfl, hend, hall, hempty⟩ := hi h' (hle.trans hf) hl.2
    refine ⟨bytes :: outs, rest'', ?_, by simp, fun hlen => hend ?_, .cons hb hall, ?_⟩
    · simp [ReadForWrite.readAll, hr, ho]
    · cases bytes
      case nil =>
        have hn : outs.flatten ++ rest'' = [] := he rfl
        rw [hn]
        exact Nat.zero_le _
      case cons b bytes =>
        rw [List.length_append, List.length_cons, List.length_cons] at hlen
        omega
    · intro before out after heq
      cases before
      case nil =>
        obtain ⟨rfl, -⟩ := List.cons.inj heq
        constructor
        · exact fun hb => (he hb).symm
        · intro hb
          exact (List.append_eq_nil_iff.mp hb.symm).1
      case cons b before =>
        obtain ⟨rfl, houts⟩ := List.cons.inj heq
        rw [hempty before out after houts, List.flatten_cons]
        exact (List.append_right_inj bytes).symm

end ReadForWrite

-- A response delivers the initial bytes, the chunks and the text of the error, in this order. Each
-- read delivers some of them, until all are delivered.
theorem readAll_delivers {O : Type} (addMoreData : O → Bytes × Except String (Option O))
    (initial : Bytes) (s : O) (chunks : List Bytes) (e : Option String) (r : ReadForWrite O)
    (lengths : List ℕ) (hg : ReadForWrite.Generates addMoreData s chunks e)
    (hr : ReadForWrite.buildResponse (initial, .ok s) = .ok r) (hl : ∀ n ∈ lengths, 1 ≤ n) :
    ∀ fuel ≥ chunks.length, ∃ outs, r.readAll addMoreData fuel lengths = some outs ∧
      let all := initial ++ (chunks.flatten ++ ReadForWrite.errorText e)
      outs.flatten <+: all ∧ (all.length ≤ lengths.length → outs.flatten = all) ∧
      List.Forall₂ (fun out n => out.length ≤ n) outs lengths ∧
      ∀ before out after, outs = before ++ out :: after → (out = [] ↔ before.flatten = all) := by
  intro fuel hf
  cases hr
  have hrem : ReadForWrite.Remains addMoreData ⟨initial, 0, some s⟩ chunks.length
      (initial ++ (chunks.flatten ++ ReadForWrite.errorText e)) := .more (Nat.zero_le _) rfl hg
  obtain ⟨outs, rest, ho, hrest, hend, hlen, hempty⟩ := hrem.readAll hf hl
  refine ⟨outs, ho, ⟨rest, hrest.symm⟩, fun h => ?_, hlen, hempty⟩
  rw [hrest, hend h, List.append_nil]

-- A generator that writes an empty chunk and two bytes, and then fails.
theorem readAll_delivers_sample :
    ∃ outs, (ReadForWrite.mk [1] 0 (some 0)).readAll
        (fun n : ℕ => if n = 0 then ([], .ok (some 1)) else ([2, 3], .error "e")) 2 [2, 1, 9, 1] =
        some outs ∧ outs.flatten = [1, 2, 3, 101] := by
  obtain ⟨outs, ho, -, hall, -⟩ := readAll_delivers
    (fun n : ℕ => if n = 0 then ([], .ok (some 1)) else ([2, 3], .error "e")) [1] 0 [[], [2, 3]]
    (some "e") _ [2, 1, 9, 1] (.next rfl (.fail rfl)) rfl (by decide) 2 le_rfl
  exact ⟨outs, ho, hall (by decide)⟩
