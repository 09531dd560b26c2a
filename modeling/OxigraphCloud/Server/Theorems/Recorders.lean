import OxigraphCloud.Server.Recorders
import OxigraphCloud.Server.Theorems.Retention

namespace Changelog

def Recording.entry : Recording → Option ChangelogEntry
  | idle | waiting _ _                        => none
  | writing entry | pruning entry | sending entry => some entry

theorem prune_of_error {sv : Services} {c : Changelog} {id : UInt64}
    (h : c.prune sv am id s = (.error err, s')) :
    c.retain < id ∧ oldSubjects sv s (id - c.retain) ≠ [] ∧ (am.faults .prune).isNone = false := by
  have hf : (am.faults .prune).isNone = false := by
    by_contra hf
    have := (prune_of_isNone sv c id s (Bool.not_eq_false _ ▸ hf)).left
    rw [h] at this
    cases this
  rw [prune] at h
  split at h
  case isTrue => cases congrArg Prod.fst h
  case isFalse hr =>
    split at h
    case h_1 => cases congrArg Prod.fst h
    case h_2 ho => exact ⟨UInt64.not_le.mp hr, ho, hf⟩

theorem prune_of_refused {sv : Services} {c : Changelog} {id : UInt64} (hr : c.retain < id)
    (ho : oldSubjects sv s (id - c.retain) ≠ []) (hf : (am.faults .prune).isNone = false) :
    ∃ err, c.prune sv am id s = (.error err, s) := by
  rw [prune, if_neg (UInt64.not_le.mpr hr)]
  split
  case h_1 h => contradiction
  case h_2 => exact Store.transact_of_not_isNone hf

namespace Recorders

variable {ι : Type} {sv : Services} {r r' : Recorders ι} {e : ChangelogEntry} {id id₀ : UInt64}
  {s : Store}

-- There is nothing about the id.
structure Untold (r : Recorders ι) (id : UInt64) : Prop where
  about         : r.store.about id = ∅
  written       : ∀ {e}, e ∈ r.written → e.id ≠ id
  announcements : r.announcements id = []

-- How far a call has got.
def Fact (r : Recorders ι) : Recording → Prop
  | .idle | .waiting _ _    => True
  | .writing e              => r.Untold e.id
  | .pruning e | .sending e => e ∈ r.written ∧ r.announcements e.id = []

-- What a call has done, given what it has returned.
def Settled (r : Recorders ι) (e : ChangelogEntry) : Except ChangelogError ChangelogEntry → Prop
  | .ok _    => e ∈ r.written ∧ r.announcements e.id = [e.toEvent]
  | .error _ => r.Untold e.id

-- A step that concerns the ids in the set does not change anything about the other entries.
structure Frame (ids : Set UInt64) (r r' : Recorders ι) : Prop where
  about         : ∀ {id}, id ∉ ids → r.store.about id = ∅ → r'.store.about id = ∅
  written       : ∀ {e}, e.id ∉ ids → (e ∈ r'.written ↔ e ∈ r.written)
  announcements : ∀ {id}, id ∉ ids → r'.announcements id = r.announcements id

namespace Frame

theorem of_shrinks (hs : Shrinks r.store r'.store) (hw : r'.written = r.written)
    (hev : r'.changelog.cdcSender = r.changelog.cdcSender) : Frame ids r r' where
  about {id} _ ha := by
    obtain hs | hs := hs.about id
    · exact hs.trans ha
    · exact hs
  written _       := by rw [hw]
  announcements _ := by simp only [Recorders.announcements, events, hev]

variable (h : Frame ids r r')

include h

theorem untold (hn : id ∉ ids) (hu : r.Untold id) : r'.Untold id where
  about         := h.about hn hu.about
  written he hi := hu.written ((h.written (hi ▸ hn)).mp he) hi
  announcements := (h.announcements hn).trans hu.announcements

theorem fact {phase : Recording} (hn : ∀ e ∈ phase.entry, e.id ∉ ids) (hf : r.Fact phase) :
    r'.Fact phase := by
  cases phase
  case idle => trivial
  case waiting => trivial
  case writing e => exact h.untold (hn e rfl) hf
  case pruning e | sending e =>
    exact ⟨(h.written (hn e rfl)).mpr hf.left, (h.announcements (hn e rfl)).trans hf.right⟩

theorem settled {result : Except ChangelogError ChangelogEntry} (hn : e.id ∉ ids)
    (hs : r.Settled e result) : r'.Settled e result := by
  cases result
  case ok => exact ⟨(h.written hn).mpr hs.left, (h.announcements hn).trans hs.right⟩
  case error => exact h.untold hn hs

end Frame

structure Invariant (r : Recorders ι) : Prop where
  fresh   : ∀ {id}, r.changelog.counter ≤ id → r.Untold id
  lt      : ∀ {i e}, (r.phases i).entry = some e → e.id < r.changelog.counter
  apart   : ∀ {i j e e'}, (r.phases i).entry = some e → (r.phases j).entry = some e' →
    e.id = e'.id → i = j
  facts   : ∀ i, r.Fact (r.phases i)
  past    : ∀ {p}, p ∈ r.returned → p.1.id < r.changelog.counter
  other   : ∀ {p i e}, p ∈ r.returned → (r.phases i).entry = some e → p.1.id ≠ e.id
  settled : ∀ {p}, p ∈ r.returned → r.Settled p.1 p.2
  sent    : ∀ {event}, event ∈ r.events → ∃ e ∈ r.written, e.toEvent = event
  sender  : r.changelog.cdcSender.isSome

namespace Invariant

theorem announced (h : Invariant r) : Announced r where
  once p hp := by
    have hs := h.settled hp
    rcases p with ⟨e, _ | _⟩
    case error =>
      refine iff_of_false (fun he => hs.written he rfl) fun ha => ?_
      cases hs.announcements.symm.trans ha
    case ok => exact iff_of_true hs.left hs.right
  failed p hp hf := by
    have hs := h.settled hp
    rcases p with ⟨e, _ | _⟩
    case error => exact ⟨fun he => hs.written he rfl, hs.about, hs.announcements⟩
    case ok => cases hf
  sent _ := h.sent

end Invariant

section Step

variable [DecidableEq ι] {i : ι}

-- A thread that is alone does what `record` does.
theorem run_call (h : r.phases i = .idle) (hl : r.writeLock = false) (sv : Services)
    (am : Ambient) (ops : List BufferedOp) (operation : String) :
    let r' := Run.run (step sv) r
      [.call i ops operation, .next i am, .next i am, .next i am, .next i am]
    (r'.changelog, r'.store) = (r.changelog.record sv am ops operation r.store).2 := by
  cases hc : r.changelog.enabled
  case false => simp [Run.run, step, next, h, hc, record]
  case true =>
    rcases hw : writeEntryToStore sv am (r.changelog.entry am ops operation) r.store with ⟨_ | _, s⟩
    case error =>
      simp [Run.run, step, next, h, hc, record, move, lock, hl, write, hw, finish, observe]
    case ok =>
      by_cases hr : r.changelog.retain > 0
      case neg =>
        simp [Run.run, step, next, h, hc, record, move, lock, hl, write, hw, finish, observe,
          Recorders.prune, hr, send]
      case pos =>
        rcases hp : Changelog.prune sv am
          ⟨true, r.changelog.retain, r.changelog.counter + 1, r.changelog.cdcSender⟩
          (r.changelog.entry am ops operation).id s with ⟨_ | _, s'⟩ <;>
        simp [Run.run, step, next, h, hc, record, move, lock, hl, write, hw, finish, observe,
          Recorders.prune, hr, send, hp]

theorem run_call_sample :
    let r := Run.run (step .plain) (initial .plain true 1 .empty)
      [.call () [] "a", .next () .plain, .next () .plain, .next () .plain, .next () .plain]
    (r.changelog, r.store) =
      ((initial .plain true 1 .empty : Recorders Unit).changelog.record .plain .plain [] "a"
        .empty).2 :=
  run_call rfl rfl .plain .plain [] "a"

theorem move_phases_of_ne {j : ι} {phase : Recording} (h : j ≠ i) :
    (r.move i phase).phases j = r.phases j :=
  Function.update_of_ne h ..

theorem move_phases_self {phase : Recording} : (r.move i phase).phases i = phase :=
  Function.update_self ..

-- A call goes on, or returns and leaves its entry and its result in `l`.
theorem Invariant.advance {phase : Recording}
    {l : List (ChangelogEntry × Except ChangelogError ChangelogEntry)} (h : Invariant r)
    (hi : (r.phases i).entry = some e) (hc : r'.changelog.counter = r.changelog.counter)
    (hm : r'.phases = (r.move i phase).phases) (hr : r'.returned = l ++ r.returned)
    (hp : ∀ e' ∈ phase.entry, e' = e ∧ l = []) (hl : ∀ p ∈ l, p.1 = e ∧ r'.Settled p.1 p.2)
    (hf : Frame {e.id} r r') (hfact : r'.Fact phase)
    (hev : ∀ {event}, event ∈ r'.events → ∃ e ∈ r'.written, e.toEvent = event)
    (hn : r'.changelog.cdcSender.isSome) : Invariant r' := by
  have he {j e'} (hj : (r'.phases j).entry = some e') :
      (r.phases j).entry = some e' ∧ (j = i → l = []) := by
    by_cases hji : j = i
    case pos =>
      rw [hm, hji, move_phases_self] at hj
      exact ⟨by rw [hji, hi, (hp e' hj).left], fun _ => (hp e' hj).right⟩
    case neg =>
      rw [hm, move_phases_of_ne hji] at hj
      exact ⟨hj, fun h => absurd h hji⟩
  constructor
  case fresh =>
    intro id hid
    rw [hc] at hid
    exact hf.untold (fun h' => UInt64.not_lt.mpr (h' ▸ hid) (h.lt hi)) (h.fresh hid)
  case lt => exact fun hj => hc ▸ h.lt (he hj).left
  case apart => exact fun hj hj' hid => h.apart (he hj).left (he hj').left hid
  case facts =>
    intro j
    by_cases hji : j = i
    case pos => rwa [hji, hm, move_phases_self]
    case neg =>
      rw [hm, move_phases_of_ne hji]
      exact hf.fact (fun e' he' hid => hji <| h.apart he' hi hid) (h.facts j)
  case past =>
    intro p hp
    rw [hc]
    obtain hp | hp := List.mem_append.mp (hr ▸ hp)
    · exact (hl p hp).left ▸ h.lt hi
    · exact h.past hp
  case other =>
    intro p j e' hp hj hid
    obtain ⟨hj, hji⟩ := he hj
    obtain hp | hp := List.mem_append.mp (hr ▸ hp)
    · rw [(hl p hp).left] at hid
      exact List.not_mem_nil <| hji (h.apart hi hj hid).symm ▸ hp
    · exact h.other hp hj hid
  case settled =>
    intro p hp
    obtain hp | hp := List.mem_append.mp (hr ▸ hp)
    · exact (hl p hp).right
    · exact hf.settled (h.other hp hi) (h.settled hp)
  case sent => exact hev
  case sender => exact hn

-- A call begins, or gets an id.
theorem Invariant.begin {phase : Recording} (h : Invariant r) (hi : (r.phases i).entry = none)
    (hle : r.changelog.counter ≤ r'.changelog.counter) (hs : r'.store = r.store)
    (hw : r'.written = r.written) (hev : r'.changelog.cdcSender = r.changelog.cdcSender)
    (hr : r'.returned = r.returned) (hm : r'.phases = (r.move i phase).phases)
    (hp : ∀ e ∈ phase.entry, r.changelog.counter ≤ e.id ∧ e.id < r'.changelog.counter)
    (hfact : r.Fact phase) : Invariant r' := by
  have hf : Frame ∅ r r' := .of_shrinks (.of_changelogQuads (by rw [hs])) hw hev
  have he {j e} (hj : (r'.phases j).entry = some e) : (r.phases j).entry = some e ∨
      j = i ∧ r.changelog.counter ≤ e.id ∧ e.id < r'.changelog.counter := by
    by_cases hji : j = i
    case pos =>
      rw [hm, hji, move_phases_self] at hj
      exact .inr ⟨hji, hp e hj⟩
    case neg =>
      rw [hm, move_phases_of_ne hji] at hj
      exact .inl hj
  constructor
  case fresh =>
    intro id hid
    exact hf.untold (Set.notMem_empty _) <| h.fresh (UInt64.le_trans hle hid)
  case lt =>
    intro j e hj
    obtain hj | ⟨_, _, hlt⟩ := he hj
    · exact UInt64.lt_of_lt_of_le (h.lt hj) hle
    · exact hlt
  case apart =>
    intro j j' e e' hj hj' hid
    obtain hj | ⟨rfl, hle, _⟩ := he hj <;> obtain hj' | ⟨hi', hle', _⟩ := he hj'
    · exact h.apart hj hj' hid
    · exact absurd (h.lt hj) <| UInt64.not_lt.mpr (hid ▸ hle')
    · exact absurd (h.lt hj') <| UInt64.not_lt.mpr (hid ▸ hle)
    · exact hi'.symm
  case facts =>
    intro j
    refine hf.fact (fun _ _ => Set.notMem_empty _) ?_
    by_cases hji : j = i
    case pos => rwa [hji, hm, move_phases_self]
    case neg =>
      rw [hm, move_phases_of_ne hji]
      exact h.facts j
  case past => exact fun hp => UInt64.lt_of_lt_of_le (h.past (hr ▸ hp)) hle
  case other =>
    intro p j e hp hj hid
    rw [hr] at hp
    obtain hj | ⟨_, hle, _⟩ := he hj
    · exact h.other hp hj hid
    · exact UInt64.not_lt.mpr (hid ▸ hle) (h.past hp)
  case settled => exact fun hp => hf.settled (Set.notMem_empty _) <| h.settled (hr ▸ hp)
  case sent =>
    rw [events, hev, hw]
    exact h.sent
  case sender => exact hev ▸ h.sender

theorem Invariant.lock (h : Invariant r) (hi : r.phases i = .waiting ops operation)
    (hc : r.changelog.counter + 1 ≠ 0) (am : Ambient) :
    Invariant (r.lock i am ops operation) := by
  rw [Recorders.lock]
  split
  case isTrue => exact h
  case isFalse =>
    have hlt := lt_add_one hc
    refine h.begin (by rw [hi]; rfl) (UInt64.le_of_lt hlt) rfl rfl rfl rfl rfl ?_ ?_
    · rintro _ ⟨⟩
      exact ⟨UInt64.le_refl _, hlt⟩
    · exact h.fresh (UInt64.le_refl _)

omit [DecidableEq ι] in
theorem observe_of_about (h : r.store.about e.id = ∅) : r.observe sv e r.store = r := by
  obtain ⟨q, hq⟩ := List.exists_mem_of_ne_nil _ <| e.quads_ne_nil sv
  obtain ⟨hs, hg, _⟩ := ChangelogEntry.mem_quads.mp hq
  rw [observe, if_neg]
  exact fun hm => Finset.ne_empty_of_mem (mem_about.mpr ⟨hm q hq, hs, hg⟩) h

omit [DecidableEq ι] in
theorem observe_insertAll : r.observe sv e (r.store.insertAll (e.quads sv)) =
    { r with store := r.store.insertAll (e.quads sv), written := e :: r.written } := by
  rw [observe, if_pos fun q hq => Store.mem_insertAll.mpr <| .inl hq]

-- Either nothing is written, or only the quads about the entry are new.
theorem Invariant.write (h : Invariant r) (hi : r.phases i = .writing e) (am : Ambient) :
    Invariant (r.write sv i am e) := by
  have hu : r.Fact (.writing e) := hi ▸ h.facts i
  have he : (r.phases i).entry = some e := by rw [hi]; rfl
  rw [Recorders.write]
  cases hf : (am.faults .entry).isNone
  case false =>
    obtain ⟨err, hw⟩ : ∃ err, writeEntryToStore sv am e r.store = (.error err, r.store) :=
      Store.transact_of_not_isNone hf
    simp only [hw, observe_of_about hu.about]
    have hf {ids} : Frame ids r (r.finish i e (.error err)) :=
      .of_shrinks (.of_changelogQuads rfl) rfl rfl
    refine h.advance he rfl rfl (l := [(e, .error err)]) rfl ?_ ?_ hf trivial h.sent h.sender
    · rintro _ ⟨⟩
    · simp only [List.mem_singleton, forall_eq, true_and]
      exact hf.untold (Set.notMem_empty _) hu
  case true =>
    have hw : writeEntryToStore sv am e r.store = (.ok (), _) := Store.transact_of_isNone hf rfl
    simp only [hw, observe_insertAll]
    refine h.advance he rfl rfl (l := []) rfl ?_ (by simp) ?_ ⟨.head _, hu.announcements⟩ ?_
      h.sender
    · rintro _ ⟨⟩
      exact ⟨rfl, rfl⟩
    · refine ⟨fun hn ha => ?_, fun hn => ?_, fun _ => rfl⟩
      · change (r.store.insertAll (e.quads sv)).about _ = ∅
        rw [about_insertAll_quads_of_ne hn, ha]
      · refine List.mem_cons.trans <| or_iff_right fun he => hn ?_
        rw [he, Set.mem_singleton_iff]
    · intro event hev
      obtain ⟨e', he', hev⟩ := h.sent hev
      exact ⟨e', .tail _ he', hev⟩

theorem Invariant.prune (h : Invariant r) (hi : r.phases i = .pruning e) (am : Ambient)
    (hn : ¬r.PruneRefused sv (.next i am)) : Invariant (r.prune sv i am e) := by
  have hu : r.Fact (.pruning e) := hi ▸ h.facts i
  have he : (r.phases i).entry = some e := by rw [hi]; rfl
  -- The entry is not changed when old ones are removed.
  have hs {s} (hs : Shrinks r.store s) : Invariant { r.move i (.sending e) with store := s } := by
    have hf {ids} : Frame ids r { r.move i (.sending e) with store := s } := .of_shrinks hs rfl rfl
    refine h.advance he rfl rfl (l := []) rfl ?_ (by simp) hf ?_ h.sent h.sender
    · rintro _ ⟨⟩
      exact ⟨rfl, rfl⟩
    · exact hf.fact (fun _ _ => Set.notMem_empty _) hu
  rw [Recorders.prune]
  split
  case isFalse => exact hs (.of_changelogQuads rfl)
  case isTrue hr =>
    have hp := (prune_pruned sv am e.id r.store hr).shrinks
    split
    case h_1 hpr =>
      obtain ⟨hlt, ho, hf⟩ := prune_of_error hpr
      exact absurd ⟨e, hi, hr, hlt, ho, hf⟩ hn
    case h_2 hpr =>
      rw [hpr] at hp
      exact hs hp

theorem events_send (hc : r.changelog.cdcSender.isSome) :
    (r.send i e).events = r.events ++ [e.toEvent] := by
  obtain ⟨events, he⟩ := Option.isSome_iff_exists.mp hc
  simp [Recorders.send, Recorders.events, Changelog.send, he]

theorem Invariant.send (h : Invariant r) (hi : r.phases i = .sending e) :
    Invariant (r.send i e) := by
  have hu : r.Fact (.sending e) := hi ▸ h.facts i
  have he : (r.phases i).entry = some e := by rw [hi]; rfl
  have hev := events_send (i := i) (e := e) h.sender
  refine h.advance he rfl rfl (l := [(e, .ok e)]) rfl ?_ ?_ ?_ trivial ?_ ?_
  · rintro _ ⟨⟩
  · simp only [List.mem_singleton, forall_eq, true_and]
    refine ⟨hu.left, ?_⟩
    rw [announcements, hev, List.filter_append, ← announcements, hu.right]
    simp [ChangelogEntry.toEvent]
  · refine ⟨fun _ => id, fun _ => Iff.rfl, fun hn => ?_⟩
    rw [announcements, hev, List.filter_append, ← announcements]
    simpa [ChangelogEntry.toEvent] using fun h => hn h.symm
  · intro event hm
    rw [hev] at hm
    obtain hm | hm := List.mem_append.mp hm
    · exact h.sent hm
    · exact ⟨e, hu.left, (List.mem_singleton.mp hm).symm⟩
  · simpa [Recorders.send, Changelog.send] using h.sender

theorem Invariant.step {event : Event ι} (h : Invariant r) (hc : r.Countable event)
    (hn : ¬r.PruneRefused sv event) : Invariant (r.step sv event) := by
  cases event
  case call i ops operation =>
    rw [Recorders.step]
    split
    case h_1 hi _ =>
      exact h.begin (by rw [hi]; rfl) (UInt64.le_refl _) rfl rfl rfl rfl rfl
        (by simp [Recording.entry]) trivial
    case h_2 => exact h
  case next i am =>
    rw [Recorders.step, Recorders.next]
    split
    case h_1 => exact h
    case h_2 hi => exact h.lock hi hc am
    case h_3 hi => exact h.write hi am
    case h_4 hi => exact h.prune hi am hn
    case h_5 hi => exact h.send hi

omit [DecidableEq ι] in
theorem subset_observe (sv : Services) (r : Recorders ι) (e : ChangelogEntry) (s : Store) :
    r.written ⊆ (r.observe sv e s).written := by
  rw [observe]
  split
  case isTrue => exact List.subset_cons_self ..
  case isFalse => exact List.Subset.refl _

-- Nothing is taken back.
theorem step_mono (sv : Services) (r : Recorders ι) (event : Event ι) :
    r.written ⊆ (r.step sv event).written ∧ r.returned ⊆ (r.step sv event).returned := by
  have hc {α} (a : α) (l : List α) : l ⊆ a :: l := List.subset_cons_self ..
  have hr {α} (l : List α) : l ⊆ l := List.Subset.refl _
  cases event
  case call =>
    rw [step]
    split <;> exact ⟨hr _, hr _⟩
  case next =>
    rw [step, next]
    split
    case h_1 => exact ⟨hr _, hr _⟩
    case h_2 =>
      rw [lock]
      split <;> exact ⟨hr _, hr _⟩
    case h_3 =>
      rw [write]
      split
      case h_1 => exact ⟨subset_observe .., hc ..⟩
      case h_2 => exact ⟨subset_observe .., hr _⟩
    case h_4 =>
      rw [prune]
      split
      case isFalse => exact ⟨hr _, hr _⟩
      case isTrue =>
        split
        case h_1 => exact ⟨hr _, hc ..⟩
        case h_2 => exact ⟨hr _, hr _⟩
    case h_5 => exact ⟨hr _, hc ..⟩

-- An entry is in the store when the old ones are removed.
def Written (r : Recorders ι) : Prop := ∀ i e, r.phases i = .pruning e → e ∈ r.written

-- A call has failed and left its entry in the store.
def Forsaken (r : Recorders ι) : Prop := ∃ p ∈ r.returned, p.2.isOk = false ∧ p.1 ∈ r.written

theorem Forsaken.step {event : Event ι} (h : Forsaken r) : Forsaken (r.step sv event) := by
  obtain ⟨p, hp, hf, hw⟩ := h
  obtain ⟨hw', hr'⟩ := step_mono sv r event
  exact ⟨p, hr' hp, hf, hw' hw⟩

theorem Written.move (h : Written r) (phase : Recording) (hw : r.written ⊆ r'.written)
    (hm : r'.phases = (r.move i phase).phases) (hp : ∀ e, phase = .pruning e → e ∈ r'.written) :
    Written r' := by
  intro j e hj
  by_cases hji : j = i
  case pos =>
    rw [hm, hji, move_phases_self] at hj
    exact hp e hj
  case neg =>
    rw [hm, move_phases_of_ne hji] at hj
    exact hw (h j e hj)

theorem Written.write (h : Written r) (am : Ambient) : Written (r.write sv i am e) := by
  rw [Recorders.write]
  split
  case h_1 => exact h.move .idle (subset_observe ..) rfl (by simp)
  case h_2 hw =>
    refine h.move (.pruning e) (subset_observe ..) rfl ?_
    rintro _ ⟨⟩
    cases Store.transact_of_ok hw
    rw [observe_insertAll]
    exact .head _

theorem Written.step {event : Event ι} (h : Written r) : Written (r.step sv event) := by
  have hr : r.written ⊆ r.written := List.Subset.refl _
  cases event
  case call i ops operation =>
    rw [Recorders.step]
    split
    case h_1 => exact h.move (.waiting ops operation) hr rfl (by simp)
    case h_2 => exact h
  case next i am =>
    rw [Recorders.step, Recorders.next]
    split
    case h_1 => exact h
    case h_2 ops operation _ =>
      rw [lock]
      split
      case isTrue => exact h
      case isFalse => exact h.move (.writing (r.changelog.entry am ops operation)) hr rfl (by simp)
    case h_3 => exact h.write am
    case h_4 e _ =>
      rw [Recorders.prune]
      split
      case isFalse => exact h.move (.sending e) hr rfl (by simp)
      case isTrue =>
        split
        case h_1 => exact h.move .idle hr rfl (by simp)
        case h_2 => exact h.move (.sending e) hr rfl (by simp)
    case h_5 => exact h.move .idle hr rfl (by simp)

theorem forsaken_of_pruneRefused {event : Event ι} (h : Written r) (hr : r.PruneRefused sv event) :
    Forsaken (r.step sv event) := by
  cases event
  case call => cases hr
  case next i am =>
    obtain ⟨e, hi, hr, hlt, ho, hf⟩ := hr
    obtain ⟨err, hp⟩ := prune_of_refused hlt ho hf
    refine ⟨(e, .error err), ?_, rfl, (step_mono sv r (.next i am)).left (h i e hi)⟩
    simp only [Recorders.step, Recorders.next, hi, Recorders.prune, if_pos hr, hp]
    exact .head _

omit [DecidableEq ι] in
theorem invariant_initial {retain : UInt64} (hs : s.changelogQuads none none = ∅) :
    Invariant (initial sv isEnabled retain s : Recorders ι) := by
  constructor
  case fresh =>
    refine fun _ => ⟨Finset.eq_empty_of_forall_notMem fun q hq => ?_, by simp [initial], rfl⟩
    obtain ⟨hq, _, hg⟩ := mem_about.mp hq
    exact Finset.notMem_empty q <| hs ▸ mem_changelogQuads.mpr ⟨hq, hg⟩
  case lt => exact fun hi => by cases hi
  case apart => exact fun hi => by cases hi
  case facts => exact fun _ => trivial
  case past => exact fun hp => by cases hp
  case other => exact fun hp => by cases hp
  case settled => exact fun hp => by cases hp
  case sent => exact fun he => by cases he
  case sender => rfl

-- Unless the counter overflows, exactly the runs in which no removal of old entries is refused have
-- the property.
theorem announced_iff (sv : Services) (isEnabled : Bool) (retain : UInt64) (s : Store)
    (events : List (Event ι)) (hs : s.changelogQuads none none = ∅)
    (hc : Run.Along (step sv) Countable (initial sv isEnabled retain s) events) :
    Announced (Run.run (step sv) (initial sv isEnabled retain s) events) ↔
      Run.Along (step sv) (fun r event => ¬r.PruneRefused sv event) (initial sv isEnabled retain s)
        events := by
  constructor
  case mp =>
    intro h
    refine Run.Along.of_not_reached (I := Written) (B := Forsaken) ?_ Written.step ?_
      Forsaken.step ?_
    · exact fun _ _ hi => by cases hi
    · exact fun hw hr => forsaken_of_pruneRefused hw (not_not.mp hr)
    · rintro ⟨p, hp, hf, hw⟩
      exact (h.failed p hp hf).left hw
  case mpr =>
    intro h
    have hi := Run.invariant (I := Invariant) (invariant_initial hs) (hc.and h) fun hi h =>
      hi.step h.left h.right
    exact hi.announced

omit [DecidableEq ι] in
theorem initial_empty (sv : Services) (retain : UInt64) :
    (initial sv true retain .empty : Recorders ι) = {
      changelog := { Changelog.new true retain with cdcSender := some [] }
      store     := .empty
      writeLock := false
      phases _  := .idle
      written   := []
      returned  := [] } := by
  have hc : (Changelog.new true retain).initCounter sv .empty = .new true retain :=
    Log.initial_changelog rfl retain
  rw [initial, hc]

omit [DecidableEq ι] in
theorem not_pruneRefused {event : Event ι} (h : r.changelog.retain = 0) :
    ¬r.PruneRefused sv event := by
  cases event
  case call => exact id
  case next =>
    rintro ⟨_, _, hr, _⟩
    exact UInt64.lt_irrefl _ (h ▸ hr)

-- A storage that refuses every transaction.
def refusing : Ambient := { Ambient.plain with faults _ := { start := some "", commit := none } }

-- The second thread waits for the first one, and cannot write its entry.
theorem announced_of_refused_entry : Announced (Run.run (step .plain)
    (initial .plain true 0 .empty : Recorders Bool)
    [.call false [] "update", .call true [] "store", .next false .plain, .next true .plain,
      .next false .plain, .next false .plain, .next false .plain, .next true .plain,
      .next true refusing]) := by
  rw [announced_iff]
  · rw [initial_empty]
    refine ⟨?_, ?_, ?_, ?_, ?_, ?_, ?_, ?_, ?_, trivial⟩ <;> exact not_pruneRefused rfl
  · rfl
  · rw [initial_empty]
    refine ⟨?_, ?_, ?_, ?_, ?_, ?_, ?_, ?_, ?_, trivial⟩ <;>
    · unfold Countable
      decide

-- The first entry is written and announced, and the second one is written.
def pruneEvents : List (Event Unit) :=
  [.call () [] "update", .next () .plain, .next () .plain, .next () .plain, .next () .plain,
    .call () [] "store", .next () .plain, .next () .plain]

-- The second call fails when the first entry cannot be removed.
theorem not_announced_of_refused_prune : ¬Announced (Run.run (step .plain)
    (initial .plain true 1 .empty) (pruneEvents ++ [.next () refusing])) := by
  intro h
  let e₁ := (Changelog.new true 1).entry .plain [] "update"
  let e₂ := { Changelog.new true 1 with counter := 2 }.entry .plain [] "store"
  rw [Run.run_append] at h
  have hw : Written (Run.run (step .plain) (initial .plain true 1 .empty) pruneEvents) :=
    Run.stays Written.step fun _ _ hi => by cases hi
  have hf : Forsaken (step .plain (Run.run (step .plain) (initial .plain true 1 .empty)
      pruneEvents) (.next () refusing)) := by
    refine forsaken_of_pruneRefused hw ?_
    rw [initial_empty]
    have hs : Holds .plain ((Store.empty.insertAll (e₁.quads .plain)).insertAll (e₂.quads .plain))
      [e₂, e₁] := ((Log.holds_nil rfl).insertAll e₁).insertAll e₂
    have ho : ChangelogEntry.subject e₁.id ∈ oldSubjects .plain
        ((Store.empty.insertAll (e₁.quads .plain)).insertAll (e₂.quads .plain)) (2 - 1) :=
      hs.mem_oldSubjects.mpr ⟨e₁, by simp, rfl, by decide⟩
    exact ⟨e₂, rfl, by decide, by decide, List.ne_nil_of_mem ho, rfl⟩
  obtain ⟨p, hp, hf, hw⟩ := hf
  exact (h.failed p hp hf).left hw

end Step

end Recorders

end Changelog
