import OxigraphCloud.Server.Interleaving
import OxigraphCloud.Server.Theorems.Validation

theorem diffOps_eq_some (h : diffOps sv before after = some ops) :
    Changelog.insertedOf ops = sv.scan (after \ before) ∧
    Changelog.removedOf ops = sv.scan (before \ after) := by
  simp only [diffOps] at h
  generalize sv.scan (after \ before) = inserted at *
  generalize sv.scan (before \ after) = removed at *
  split at h
  case isTrue => contradiction
  case isFalse =>
    cases h
    by_cases hi : inserted = [] <;> by_cases hr : removed = [] <;>
      simp [hi, hr, Changelog.insertedOf, Changelog.removedOf]

theorem netChange_diffOps {old new : Store} (h : diffOps sv old.quads new.quads = some ops) :
    Changelog.NetChange old new (Changelog.insertedOf ops) (Changelog.removedOf ops) := by
  have ⟨hi, hr⟩ := diffOps_eq_some h
  simp [Changelog.NetChange, hi, hr, sv.mem_scan]

namespace Interleaving

variable {sv : Services} {updates : ℕ → String} {rs : Requests} {i : ℕ} {am : Ambient}

-- What is known about a request if nobody has written to the store between its snapshots.
def Phase.Sound (sv : Services) (s : Store) : Phase → Prop
  | counted isSmall          => isSmall = true
  | started before           => before = some s.quads
  | evaluating before _ _    => before = some s.quads
  | committed before old new => before = some old.quads ∧ s.quads = new.quads
  | evaluated ops old new    => ops = diffOps sv old.quads new.quads
  | _                        => True

theorem Phase.Sound.of_not_isOpen {phase : Phase} (h : phase.Sound sv s)
    (ho : phase.isOpen = false) : phase.Sound sv s' := by
  cases phase <;> simp_all [Sound, isOpen]

theorem Phase.sound_recording : (recording entry).Sound sv s := trivial

theorem Phase.sound_finished : finished.Sound sv s := trivial

namespace Requests

structure Invariant (sv : Services) (rs : Requests) : Prop where
  sound    : ∀ i, (rs.phases i).Sound sv rs.store
  faithful : rs.Faithful

-- A step that does not write to the store.
theorem Invariant.move (h : Invariant sv rs) (hp : phase.Sound sv rs.store) :
    Invariant sv (rs.move i phase) where
  sound j := by
    by_cases hj : j = i
    case pos => simpa [Requests.move, hj] using hp
    case neg => simpa [Requests.move, hj] using h.sound j
  faithful := h.faithful

-- A step that writes to the store while no other request is between its snapshots.
theorem Invariant.write (h : Invariant sv rs) (ho : ∀ j ≠ i, (rs.phases j).isOpen = false)
    (hp : phase.Sound sv s) : Invariant sv { rs.move i phase with store := s } where
  sound j := by
    by_cases hj : j = i
    case pos => simpa [Requests.move, hj] using hp
    case neg => simpa [Requests.move, hj] using (h.sound j).of_not_isOpen (ho j hj)
  faithful := h.faithful

theorem Invariant.start (h : Invariant sv rs) :
    Invariant sv (rs.start sv updates i am (some rs.store.quads)) := by
  rw [Requests.start]
  split
  case h_1 => exact h.move rfl
  case h_2 => exact h.move Phase.sound_finished

theorem Invariant.commit (h : Invariant sv rs) (ho : ∀ j ≠ i, (rs.phases j).isOpen = false) :
    Invariant sv (rs.commit i am (some rs.store.quads) update snapshot) := by
  rw [Requests.commit]
  split
  case h_1 => exact h.write ho ⟨rfl, rfl⟩
  case h_2 => exact h.move Phase.sound_finished

theorem Invariant.writeEntry (h : Invariant sv rs) (ho : ∀ j ≠ i, (rs.phases j).isOpen = false)
    (hops : diffOps sv old.quads new.quads = some ops) :
    Invariant sv (rs.writeEntry sv i am ops old new) := by
  simp only [Requests.writeEntry]
  split
  case h_1 => exact ⟨(h.write ho Phase.sound_finished).sound, h.faithful⟩
  case h_2 =>
    refine ⟨(h.write ho Phase.sound_recording).sound, fun r hr => ?_⟩
    cases hr
    case head => exact netChange_diffOps hops
    case tail hr => exact h.faithful r hr

theorem Invariant.finishEntry (h : Invariant sv rs)
    (ho : ∀ j ≠ i, (rs.phases j).isOpen = false) : Invariant sv (rs.finishEntry sv i am entry) := by
  rw [Requests.finishEntry]
  split
  case isTrue => split <;> exact ⟨(h.write ho Phase.sound_finished).sound, h.faithful⟩
  case isFalse => exact ⟨(h.move Phase.sound_finished).sound, h.faithful⟩

theorem Invariant.step (h : Invariant sv rs) (hc : rs.Calm (i, am)) :
    Invariant sv (rs.step sv updates (i, am)) := by
  have hs := h.sound i
  have ⟨hl, ho⟩ := hc
  rw [Requests.step]
  split <;> rename_i hp <;> rw [hp] at hs ho
  case h_1 => exact h.move (by simp [Phase.Sound, hl hp])
  case h_2 => exact h.move rfl
  case h_3 => contradiction
  case h_4 =>
    cases hs
    exact h.start
  case h_5 =>
    cases hs
    exact h.commit (ho rfl)
  case h_6 => exact nomatch hs.left
  case h_7 =>
    have ⟨hb, hn⟩ := hs
    cases hb
    exact h.move (by rw [Phase.Sound, hn])
  case h_8 => exact h.move Phase.sound_finished
  case h_9 =>
    split
    case isTrue => exact h
    case isFalse => exact h.writeEntry (ho rfl) hs.symm
  case h_10 => exact h.finishEntry (ho rfl)
  case h_11 => exact h

-- The entries are right if nobody writes to the store between the snapshots of another request.
theorem faithful_of_calm (sv : Services) (updates : ℕ → String) (s : Store) (c : Changelog)
    (schedule : List (ℕ × Ambient))
    (h : Run.Along (step sv updates) Calm (initial s c) schedule) :
    (Run.run (step sv updates) (initial s c) schedule).Faithful :=
  have h₀ : Invariant sv (initial s c) := ⟨fun _ => trivial, nofun⟩
  (Run.invariant h₀ h Invariant.step).faithful

-- A request that is handled without any other one in between.
section Alone

variable {n : ℕ}

def runAlone (sv : Services) (updates : ℕ → String) (i : ℕ) (am : Ambient) (rs : Requests) (n : ℕ) :
    Requests :=
  Run.run (step sv updates) rs (List.replicate n (i, am))

theorem runAlone_succ : runAlone sv updates i am rs (n + 1) =
    runAlone sv updates i am (rs.step sv updates (i, am)) n := rfl

@[simp]
theorem move_phases : (rs.move i phase).phases i = phase := Function.update_self ..

-- What the request leaves behind.
def result (rs : Requests) : Changelog × Store := (rs.changelog, rs.store)

theorem result_finished (h : rs.phases i = .finished) :
    (runAlone sv updates i am rs n).result = rs.result := by
  induction n
  case zero => rfl
  case succ n hi => rw [runAlone_succ, step, h, hi]

theorem result_recording (entry : ChangelogEntry) (h : rs.phases i = .recording entry) :
    (runAlone sv updates i am rs (n + 1)).result = (rs.finishEntry sv i am entry).result := by
  rw [runAlone_succ, step, h]
  apply result_finished
  simp only [finishEntry]
  repeat' split
  all_goals exact move_phases

-- What recording the operations would leave behind.
def recordOps (sv : Services) (am : Ambient) (c : Changelog) (s : Store) :
    Option (List BufferedOp) → Changelog × Store
  | none     => (c, s)
  | some ops => (c.record sv am ops "update" s).2

theorem result_evaluated {ops : Option (List BufferedOp)} (h : rs.phases i = .evaluated ops old new)
    (hl : rs.isLocked = false) (hc : rs.changelog.enabled) :
    (runAlone sv updates i am rs (n + 2)).result = recordOps sv am rs.changelog rs.store ops := by
  rw [runAlone_succ, step, h]
  cases ops
  case none => exact result_finished move_phases
  case some ops =>
    simp only [hl, Bool.false_eq_true, if_false, writeEntry, recordOps, Changelog.record, hc,
      Bool.not_true]
    rcases writeEntryToStore sv am (rs.changelog.entry am ops "update") rs.store with ⟨_ | _, s⟩
    case error => exact result_finished move_phases
    case ok =>
      refine (result_recording (rs.changelog.entry am ops "update") ?_).trans ?_
      · exact move_phases
      · by_cases hr : rs.changelog.retain > 0 <;> simp only [finishEntry, hr, if_true, if_false]
        case pos =>
          generalize Changelog.prune .. = pruned
          rcases pruned with ⟨_ | _, s'⟩ <;> rfl
        case neg => rfl

def opsOf (sv : Services) (update : String) (before : Option (Finset Rdf.Quad)) (s : Store) :
    Option (List BufferedOp) :=
  match before with
  | none        => some [.sparqlUpdate update]
  | some before => diffOps sv before s.quads

theorem result_committed (old new : Store) (h : rs.phases i = .committed before old new)
    (hl : rs.isLocked = false) (hc : rs.changelog.enabled) :
    (runAlone sv updates i am rs (n + 3)).result =
      recordOps sv am rs.changelog rs.store (opsOf sv (updates i) before rs.store) := by
  rw [runAlone_succ, step, h]
  cases before <;> exact result_evaluated move_phases hl hc

theorem result_started (h : rs.phases i = .started before) (hl : rs.isLocked = false)
    (hc : rs.changelog.enabled) : (runAlone sv updates i am rs (n + 5)).result =
      match evaluateSparqlUpdate sv am rs.store (updates i) with
      | (.error _, s) => (rs.changelog, s)
      | (.ok _, s)    => recordOps sv am rs.changelog s (opsOf sv (updates i) before s) := by
  rw [runAlone_succ, step, h, evaluateSparqlUpdate]
  simp only [start, Store.transact]
  rcases sv.parseUpdate (updates i) with _ | u
  case error => exact result_finished move_phases
  case ok =>
    rcases (am.faults .write).start with - | _
    case some => exact result_finished move_phases
    case none =>
      simp only
      rw [runAlone_succ, step, move_phases]
      simp only [commit, show (rs.move i _).store = rs.store from rfl]
      rcases u.onStore rs.store rs.store with _ | s
      case error => exact result_finished move_phases
      case ok =>
        rcases (am.faults .write).commit with - | _
        case some => exact result_finished move_phases
        case none =>
          apply result_committed rs.store s
          · exact move_phases
          · exact hl
          · exact hc

theorem result_counted (h : rs.phases i = .counted isSmall) (hl : rs.isLocked = false)
    (hc : rs.changelog.enabled) : (runAlone sv updates i am rs (n + 6)).result =
      match evaluateSparqlUpdate sv am rs.store (updates i) with
      | (.error _, s) => (rs.changelog, s)
      | (.ok _, s)    => recordOps sv am rs.changelog s
        (opsOf sv (updates i) (if isSmall then some rs.store.quads else none) s) := by
  rw [runAlone_succ, step, h]
  cases isSmall <;> exact result_started move_phases hl hc

-- The steps of a request are those of its handler.
theorem result_waiting {server : Server} (h : rs.phases i = .waiting) (hl : rs.isLocked = false)
    (hc : rs.changelog.enabled) (hs : server.store = rs.store)
    (hcs : server.changelog = rs.changelog) :
    (runAlone sv updates i am rs (n + 7)).result =
      ((postUpdate sv am (fun _ => .ok ()) (updates i) server).2.changelog,
        (postUpdate sv am (fun _ => .ok ()) (updates i) server).2.store) := by
  have hm : (rs.move i (.counted (rs.store.len ≤ maxDiffStoreSize))).phases i = _ := move_phases
  rw [runAlone_succ, step, h, result_counted hm hl hc]
  simp only [postUpdate, evaluateSparqlUpdateWithDiff, hs, hcs, hc, Bool.not_true,
    Bool.false_eq_true, if_false, decide_eq_true_eq, ← not_le]
  rw [show (rs.move i _).store = rs.store from rfl]
  generalize evaluateSparqlUpdate sv am rs.store (updates i) = evaluated
  rcases evaluated with ⟨_ | resp, s⟩
  case error => rfl
  case ok =>
    by_cases hn : rs.store.len ≤ maxDiffStoreSize
    case pos =>
      simp only [hn, if_true, if_false, not_true_eq_false, opsOf]
      cases diffOps sv rs.store.quads s.quads
      case none => rfl
      case some ops => rfl
    case neg =>
      simp only [hn, if_true, if_false, not_false_eq_true, opsOf]
      rfl

theorem step_phases_of_ne {j : ℕ} (hj : j ≠ i) :
    (rs.step sv updates (i, am)).phases j = rs.phases j := by
  simp only [step, start, commit, writeEntry, finishEntry]
  repeat' split
  all_goals simp [move, hj]

theorem run_phases_of_ne {j : ℕ} (hj : j ≠ i) : (Run.run (step sv updates) rs
    (List.replicate n (i, am))).phases j = rs.phases j := by
  induction n generalizing rs
  case zero => rfl
  case succ n hi => exact hi.trans (step_phases_of_ne hj)

-- There is no snapshot after the second one.
theorem step_isOpen (h : rs.phases i = .evaluated ops old new) :
    (((rs.step sv updates (i, am)).step sv updates (i, am)).phases i).isOpen = false := by
  simp only [step, writeEntry, finishEntry, h]
  repeat' split
  all_goals simp_all [move, Phase.isOpen]

theorem step_phases_ne_waiting : (rs.step sv updates (i, am)).phases i ≠ .waiting := by
  simp only [step, start, commit, writeEntry, finishEntry]
  repeat' split
  all_goals simp_all [move]

theorem calm_alone (hn : rs.phases i = .waiting → rs.store.len ≤ maxDiffStoreSize)
    (ho : ∀ j ≠ i, (rs.phases j).isOpen = false) :
    Run.Along (step sv updates) Calm rs (List.replicate n (i, am)) := by
  induction n generalizing rs
  case zero => trivial
  case succ n hi =>
    refine ⟨⟨hn, fun _ => ho⟩, hi (fun h => absurd h step_phases_ne_waiting) fun j hj => ?_⟩
    rw [step_phases_of_ne hj]
    exact ho j hj

end Alone

def sampleQuad (update : String) : Rdf.Quad where
  subject   := .namedNode "http://example.com/a"
  predicate := "http://example.com/p"
  object    := .literal (.string update)
  graphName := .defaultGraph

-- Each update inserts one quad.
noncomputable def sampleServices : Services :=
  { Services.plain with
    parseUpdate update := .ok {
      onStore _ s     := .ok (s.insert (sampleQuad update))
      onTransaction s := .ok (s.insert (sampleQuad update)) } }

def sampleUpdates (i : ℕ) : String := if i = 0 then "0" else "1"

theorem result_waiting_sample :
    (runAlone sampleServices sampleUpdates 0 .plain (initial .empty (.new true 0)) 7).result.2 =
      (postUpdate sampleServices .plain (fun _ => .ok ()) "0"
        ⟨.empty, .new 0, .new true 0, ⟨.off, none⟩⟩).2.store :=
  congrArg Prod.snd (result_waiting (n := 0) rfl rfl rfl rfl rfl)

-- The second request begins, is overtaken by the first one and goes on.
theorem faithful_of_calm_sample : (Run.run (step sampleServices sampleUpdates)
    (initial .empty (.new true 0)) ((1, .plain) ::
      (List.replicate 7 (0, .plain) ++ List.replicate 6 (1, .plain)))).Faithful := by
  apply faithful_of_calm
  refine ⟨⟨fun _ => Nat.zero_le _, nofun⟩, .append (calm_alone (fun _ => Nat.zero_le _) ?_) ?_⟩
  case refine_1 =>
    intro j hj
    by_cases h : j = 1
    case pos => rw [h]; rfl
    case neg => rw [step_phases_of_ne h]; rfl
  case refine_2 =>
    apply calm_alone
    case hn =>
      rw [run_phases_of_ne (by decide)]
      exact fun h => absurd h step_phases_ne_waiting
    case ho =>
      intro j hj
      by_cases h : j = 0
      case pos =>
        rw [h]
        exact step_isOpen rfl
      case neg => rw [run_phases_of_ne h, step_phases_of_ne hj]; rfl

-- The second request commits between the snapshots of the first one.
def sampleSchedule : List (ℕ × Ambient) := [0, 0, 1, 1, 1, 1, 0, 0].map (·, .plain)

theorem run_sampleSchedule :
    let rs :=
      Run.run (step sampleServices sampleUpdates) (initial .empty (.new true 0)) sampleSchedule
    rs.phases 0 = .committed (some ∅) (Store.empty.insert (sampleQuad "1"))
      ((Store.empty.insert (sampleQuad "1")).insert (sampleQuad "0")) ∧
    rs.store = (Store.empty.insert (sampleQuad "1")).insert (sampleQuad "0") ∧
    rs.isLocked = false := ⟨rfl, rfl, rfl⟩

theorem not_faithful_of_interleaved :
    ¬(Run.run (step sampleServices sampleUpdates) (initial .empty (.new true 0))
      (sampleSchedule ++ [(0, .plain), (0, .plain)])).Faithful := by
  have ⟨hp, hs, hl⟩ := run_sampleSchedule
  rw [Run.run_append]
  generalize Run.run _ _ sampleSchedule = rs at *
  -- The difference of the snapshots has the quad of the second request.
  have hm : sampleQuad "1" ∈ sampleServices.scan (rs.store.quads \ ∅) :=
    sampleServices.mem_scan.mpr <| by simp [hs]
  rcases ho : diffOps sampleServices ∅ rs.store.quads with - | ops
  case none =>
    simp only [diffOps, ite_eq_left_iff, reduceCtorEq, imp_false, not_not] at ho
    exact absurd (ho.left ▸ hm) List.not_mem_nil
  case some =>
    have hi := (diffOps_eq_some ho).left
    intro hf
    simp only [Run.run_cons, Run.run_nil, step, hp, ho, move_phases] at hf
    rw [if_neg (by simp [move, hl])] at hf
    have hn := (hf _ (.head _)).left (sampleQuad "1")
    rw [show (ChangelogEntry.inserted _) = _ from hi] at hn
    exact (hn.mp hm).right (by simp)

end Requests

end Interleaving
