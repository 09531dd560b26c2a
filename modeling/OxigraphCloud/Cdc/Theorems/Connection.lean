import OxigraphCloud.Cdc.Connection

namespace Cdc

theorem laggedText_injective : Function.Injective laggedText := by
  intro n m h
  have ht (n : ℕ) : (laggedText n).toList =
      "Lagged: missed ".toList ++ (toString n).toList ++ " events".toList :=
    String.toList_append.trans (congrArg (· ++ _) String.toList_append)
  have h := congrArg String.toList h
  rw [ht, ht] at h
  have h := List.append_cancel_left <| List.append_cancel_right h
  have hd (n : ℕ) : (toString n).toList = Nat.toDigits 10 n := Nat.toList_repr
  rw [hd, hd] at h
  have ho (n : ℕ) : Nat.ofDigitChars 10 (Nat.toDigits 10 n) 0 = n :=
    Nat.ofDigitChars_toDigits (by decide) (by decide)
  rw [← ho n, h, ho]

namespace Message

-- The message brings the events to the subscriber, or it tells how many they are.
def Covers : Message → List ChangeEvent → Prop
  | notification batch, events => events = batch
  | error text, events         => text = laggedText events.length
  | ping, events               => events = []

theorem Covers.length_eq {m : Message} (h : m.Covers events) (h' : m.Covers events') :
    events.length = events'.length := by
  cases m
  case error => exact laggedText_injective <| Eq.trans (Eq.symm h) h'
  all_goals exact congrArg _ <| Eq.trans h (Eq.symm h')

-- The events that a message delivers.
def delivers : Message → List ChangeEvent
  | notification events => events
  | error _ | ping      => []

end Message

-- Each of the events is delivered exactly once, in this order, or counted at its place.
def Accounts (messages : List Message) (events : List ChangeEvent) : Prop :=
  ∃ parts, List.Forall₂ Message.Covers messages parts ∧ parts.flatten = events

namespace Accounts

theorem nil : Accounts [] [] := ⟨[], .nil, rfl⟩

theorem append {ms ms' : List Message} (h : Accounts ms es) (h' : Accounts ms' es') :
    Accounts (ms ++ ms') (es ++ es') := by
  have ⟨parts, hp, he⟩ := h
  have ⟨parts', hp', he'⟩ := h'
  exact ⟨parts ++ parts', List.rel_append hp hp', by simp [he, he']⟩

theorem singleton {m : Message} (h : m.Covers events) : Accounts [m] events :=
  ⟨[events], .cons h .nil, by simp⟩

theorem length_eq {ms : List Message} (h : Accounts ms es) (h' : Accounts ms es') :
    es.length = es'.length := by
  obtain ⟨parts, hp, rfl⟩ := h
  obtain ⟨parts', hp', rfl⟩ := h'
  induction hp generalizing parts'
  case nil => cases hp'; rfl
  case cons hm _ hi =>
    cases hp'
    case cons hm' hp' => simp [hm.length_eq hm', hi _ hp']

theorem append_singleton {ms : List Message} {m : Message} (h : Accounts (ms ++ [m]) events) :
    ∃ es es', events = es ++ es' ∧ Accounts ms es ∧ m.Covers es' := by
  obtain ⟨parts, hp, rfl⟩ := h
  induction ms generalizing parts
  case nil =>
    cases hp
    case cons hm hp =>
      cases hp
      exact ⟨[], _, by simp, .nil, hm⟩
  case cons hi =>
    cases hp
    case cons hm' hp =>
      have ⟨es, es', he, ha, hm⟩ := hi _ hp
      exact ⟨_ ++ es, es', by simp [he], append (singleton hm') ha, hm⟩

end Accounts

def Action.events : Action → List ChangeEvent
  | .broadcast event => [event]
  | _                => []

namespace Connection

variable {type : ChannelType} {conn conn' : Connection} {action : Action}

def isOpen (conn : Connection) : Prop := conn.mode ≠ .ended

-- The messages that have been sent together with the one that is about to be sent.
def outgoing (conn : Connection) : List Message :=
  match conn.mode with
  | .waiting | .ended  => conn.messages
  | .collecting batch  => conn.messages ++ [.notification batch]
  | .sending message   => conn.messages ++ [message]

def delivered (conn : Connection) : List ChangeEvent := conn.outgoing.flatMap Message.delivers

-- Each event that has been broadcast is delivered or counted, or it is still to be received.
def Accounted (conn : Connection) (events : List ChangeEvent) : Prop :=
  ∃ es, Accounts conn.outgoing es ∧ events = es ++ conn.rx

-- The number of events that an action drops without a message.
def silent (type : ChannelType) (conn : Connection) (action : Action) : ℕ :=
  match type, conn.mode, action with
  | .webSocketChannel2023, .collecting _, .lagged n
  | .streamingHTTPChannel2023, .waiting, .lagged n =>
    if conn.canLag n then n else 0
  | _, _, _ => 0

-- What an action does: it takes the oldest events and accounts for them, or it drops them.
inductive Takes (conn : Connection) (sent : List ChangeEvent) (conn' : Connection) : ℕ → Prop
  | accounting (taken : List ChangeEvent) (rx : conn.rx ++ sent = taken ++ conn'.rx)
      (delivered : conn'.delivered.Sublist (conn.delivered ++ taken))
      (outgoing : ∀ es, Accounts conn.outgoing es → Accounts conn'.outgoing (es ++ taken)) :
      Takes conn sent conn' 0
  | dropping (dropped : List ChangeEvent) (rx : conn.rx ++ sent = dropped ++ conn'.rx)
      (outgoing : conn'.outgoing = conn.outgoing) : Takes conn sent conn' dropped.length

namespace Takes

theorem same (hr : conn'.rx = conn.rx ++ sent) (ho : conn'.outgoing = conn.outgoing) :
    Takes conn sent conn' 0 :=
  .dropping [] (by simp [hr]) ho

theorem refl : Takes conn [] conn 0 := same (by simp) rfl

-- A message for the taken events is about to be sent.
theorem covering {m : Message} (taken : List ChangeEvent) (hr : conn.rx = taken ++ conn'.rx)
    (ho : conn'.outgoing = conn.outgoing ++ [m]) (hm : m.Covers taken)
    (hd : m.delivers.Sublist taken) : Takes conn [] conn' 0 :=
  .accounting taken (by simpa using hr) (by simpa [delivered, ho] using hd)
    fun _ h => ho ▸ h.append (.singleton hm)

-- An event is added to the batch.
theorem extending {batch : List ChangeEvent} {ms : List Message} (hr : conn.rx = event :: conn'.rx)
    (ho : conn.outgoing = ms ++ [.notification batch])
    (ho' : conn'.outgoing = ms ++ [.notification (batch ++ [event])]) :
    Takes conn [] conn' 0 := by
  refine .accounting [event] (by simpa using hr) ?_ fun es h => ?_
  · simp [delivered, ho, ho', Message.delivers]
  · have ⟨es, es', he, ha, hm⟩ := Accounts.append_singleton (ho ▸ h)
    obtain rfl : es' = batch := hm
    rw [ho', he, List.append_assoc]
    exact ha.append <| .singleton rfl

theorem dropping_take (h : conn.canLag n) (hr : conn'.rx = conn.rx.drop n)
    (ho : conn'.outgoing = conn.outgoing) : Takes conn [] conn' n := by
  have hl : (conn.rx.take n).length = n := List.length_take_of_le h.right
  have ht : Takes conn [] conn' (conn.rx.take n).length := .dropping _ (by simp [hr]) ho
  rwa [hl] at ht

end Takes

theorem outgoing_collect {batch rx : List ChangeEvent} {messages : List Message} :
    outgoing ⟨rx, collect batch, messages⟩ = messages ++ [.notification batch] := by
  unfold collect
  split <;> rfl

theorem takes_finishSending {m : Message} (hm : conn.mode = .sending m)
    (h : (conn.finishSending m ok).isOpen) : Takes conn [] (conn.finishSending m ok) 0 := by
  cases ok
  case false => exact absurd rfl h
  case true => exact .same (by simp [finishSending]) (by simp [outgoing, finishSending, hm])

theorem takes_handleWebsocket (h : (conn.handleWebsocket action).isOpen) :
    Takes conn action.events (conn.handleWebsocket action)
      (silent .webSocketChannel2023 conn action) := by
  obtain ⟨rx, mode, messages⟩ := conn
  cases action
  case broadcast => cases mode <;> exact .same rfl rfl
  case recv =>
    cases rx
    case nil => cases mode <;> exact .refl
    case cons event rx =>
      cases mode
      case waiting => exact .covering [event] rfl outgoing_collect rfl (.refl _)
      case collecting => exact .extending rfl rfl outgoing_collect
      all_goals exact .refl
  case lagged n =>
    cases mode
    case waiting =>
      simp only [handleWebsocket, silent, Action.events]
      split
      case isTrue hl =>
        have hc : laggedText n = laggedText (rx.take n).length := by
          rw [List.length_take_of_le hl.right]
        exact .covering (rx.take n) (by simp) rfl hc (List.nil_sublist _)
      case isFalse => exact .refl
    case collecting =>
      simp only [handleWebsocket, silent, Action.events]
      split
      case isTrue hl => exact .dropping_take hl rfl rfl
      case isFalse => exact .refl
    all_goals exact .refl
  case closed =>
    cases mode
    case waiting =>
      simp only [handleWebsocket] at h ⊢
      split at h
      case isTrue => exact absurd rfl h
      case isFalse hn => simpa [hn] using .refl
    case collecting =>
      simp only [handleWebsocket]
      split
      case isTrue => exact .same (by simp [Action.events]) rfl
      case isFalse => exact .refl
    all_goals exact .refl
  case timeout =>
    cases mode
    case waiting => exact .covering [] rfl rfl rfl (.refl _)
    case collecting => exact .same (List.append_nil _).symm rfl
    all_goals exact .refl
  case sent =>
    cases mode
    case sending => exact takes_finishSending rfl h
    all_goals exact .refl

theorem takes_sseHandler (h : (conn.sseHandler action).isOpen) :
    Takes conn action.events (conn.sseHandler action)
      (silent .streamingHTTPChannel2023 conn action) := by
  obtain ⟨rx, mode, messages⟩ := conn
  cases action
  case broadcast => cases mode <;> exact .same rfl rfl
  case recv =>
    cases rx
    case nil => cases mode <;> exact .refl
    case cons event rx =>
      cases mode
      case waiting => exact .covering [event] rfl rfl rfl (.refl _)
      all_goals exact .refl
  case lagged n =>
    cases mode
    case waiting =>
      simp only [sseHandler, silent, Action.events]
      split
      case isTrue hl => exact .dropping_take hl rfl rfl
      case isFalse => exact .refl
    all_goals exact .refl
  case closed =>
    cases mode
    case waiting =>
      simp only [sseHandler] at h ⊢
      split at h
      case isTrue => exact absurd rfl h
      case isFalse hn => simpa [hn] using .refl
    all_goals exact .refl
  case timeout =>
    cases mode
    case waiting => exact .covering [] rfl rfl rfl (.refl _)
    all_goals exact .refl
  case sent =>
    cases mode
    case sending => exact takes_finishSending rfl h
    all_goals exact .refl

theorem takes_step (h : (conn.step type action).isOpen) :
    Takes conn action.events (conn.step type action) (silent type conn action) := by
  cases type
  case webSocketChannel2023 => exact takes_handleWebsocket h
  case streamingHTTPChannel2023 => exact takes_sseHandler h

theorem isOpen_of_step (h : (conn.step type action).isOpen) : conn.isOpen := by
  intro he
  obtain ⟨rx, mode, messages⟩ := conn
  obtain rfl : mode = .ended := he
  cases type <;> cases action <;> exact h rfl

theorem isOpen_of_run {actions : List Action}
    (h : (Run.run (step type) conn actions).isOpen) : conn.isOpen := by
  induction actions generalizing conn
  case nil => exact h
  case cons hi => exact isOpen_of_step <| hi h

-- Where the broadcast events are, up to those that have been dropped without a message.
structure Tally (conn : Connection) (events : List ChangeEvent) (dropped : ℕ) : Prop where
  delivered : (conn.delivered ++ conn.rx).Sublist events
  count     : ∃ es, Accounts conn.outgoing es ∧
    es.length + dropped + conn.rx.length = events.length
  accounted : dropped = 0 → conn.Accounted events

theorem Tally.start : start.Tally [] 0 where
  delivered   := .refl _
  count       := ⟨[], .nil, rfl⟩
  accounted _ := ⟨[], .nil, rfl⟩

theorem Tally.takes (h : conn.Tally events n) (t : Takes conn sent conn' m) :
    conn'.Tally (events ++ sent) (n + m) := by
  have hs : ((conn.delivered ++ conn.rx) ++ sent).Sublist (events ++ sent) :=
    h.delivered.append (.refl _)
  rw [List.append_assoc] at hs
  have ⟨es, ha, hl⟩ := h.count
  cases t
  case accounting taken hr hd ho =>
    have hn := congrArg List.length hr
    simp only [List.length_append] at hn
    constructor
    case delivered =>
      rw [hr, ← List.append_assoc] at hs
      exact (hd.append (.refl _)).trans hs
    case count =>
      refine ⟨es ++ taken, ho es ha, ?_⟩
      simp only [List.length_append]
      omega
    case accounted =>
      intro hz
      have ⟨es, ha, he⟩ := h.accounted (by omega)
      exact ⟨es ++ taken, ho es ha, by rw [he, List.append_assoc, hr, List.append_assoc]⟩
  case dropping dropped hr ho =>
    have hn := congrArg List.length hr
    simp only [List.length_append] at hn
    have hd : conn'.delivered = conn.delivered := by rw [Connection.delivered, ho]; rfl
    constructor
    case delivered =>
      rw [hr] at hs
      rw [hd]
      exact ((List.Sublist.refl _).append (List.sublist_append_right ..)).trans hs
    case count =>
      refine ⟨es, ho ▸ ha, ?_⟩
      simp only [List.length_append]
      omega
    case accounted =>
      intro hz
      have ⟨es, ha, he⟩ := h.accounted (by omega)
      obtain rfl : dropped = [] := List.length_eq_zero_iff.mp (by omega)
      exact ⟨es, ho ▸ ha, by rw [he, List.append_assoc, hr, List.nil_append]⟩

-- The number of events that a run drops without a message.
def lost (type : ChannelType) : Connection → List Action → ℕ
  | _, []                => 0
  | conn, action :: actions =>
    silent type conn action + lost type (conn.step type action) actions

theorem lost_eq_zero_iff {actions : List Action} :
    lost type conn actions = 0 ↔
      Run.Along (step type) (fun conn action => silent type conn action = 0) conn actions := by
  induction actions generalizing conn
  case nil => simp [lost, Run.Along]
  case cons hi => simp [lost, Run.Along, hi]

theorem Tally.run {actions : List Action} (h : conn.Tally events n)
    (ho : (Run.run (step type) conn actions).isOpen) :
    (Run.run (step type) conn actions).Tally (events ++ actions.flatMap Action.events)
      (n + lost type conn actions) := by
  induction actions generalizing conn events n
  case nil => simpa [lost, Run.run_nil] using h
  case cons action actions hi =>
    have ht := h.takes <| takes_step <| isOpen_of_run ho
    have hr := hi ht ho
    rw [List.append_assoc, add_assoc] at hr
    exact hr

theorem Tally.accounted_iff_eq_zero (h : conn.Tally events n) : conn.Accounted events ↔ n = 0 where
  mp := fun ⟨es, ha, he⟩ => by
    have ⟨es', ha', hl⟩ := h.count
    have := ha.length_eq ha'
    rw [he, List.length_append] at hl
    omega
  mpr := h.accounted

-- Only the loop of a WebSocket collects batches.
def Fits (type : ChannelType) (conn : Connection) : Prop :=
  ∀ batch, conn.mode = .collecting batch → type = .webSocketChannel2023

theorem Fits.step (h : conn.Fits type) : (conn.step type action).Fits type := by
  cases type
  case webSocketChannel2023 => exact fun _ _ => rfl
  case streamingHTTPChannel2023 =>
    obtain ⟨rx, mode, messages⟩ := conn
    intro batch hm
    cases mode
    case collecting => exact h _ rfl
    all_goals
      cases action <;> simp only [Connection.step, sseHandler, finishSending] at hm <;>
        (try split at hm) <;> simp_all

theorem Fits.run (h : conn.Fits type) (actions : List Action) :
    (Run.run (Connection.step type) conn actions).Fits type := by
  induction actions generalizing conn
  case nil => exact h
  case cons hi => exact hi h.step

-- The connection can go on until there is nothing left to receive or to send.
def CanDrain (type : ChannelType) (conn : Connection) : Prop :=
  ∃ actions, actions.flatMap Action.events = [] ∧
    Run.Along (Connection.step type) (fun conn action => silent type conn action = 0) conn actions ∧
    (Run.run (Connection.step type) conn actions).mode = .waiting ∧
    (Run.run (Connection.step type) conn actions).rx = []

theorem CanDrain.of_step (action : Action) (he : action.events = [])
    (hs : silent type conn action = 0)
    (h : (conn.step type action).CanDrain type) : conn.CanDrain type := by
  have ⟨actions, h₁, h₂, h₃⟩ := h
  exact ⟨action :: actions, by simp [he, h₁], ⟨hs, h₂⟩, h₃⟩

-- What is in transit is sent first.
theorem canDrain_of_waiting (h : ∀ messages, CanDrain type ⟨conn.rx, .waiting, messages⟩)
    (hf : conn.Fits type) (ho : conn.isOpen) : conn.CanDrain type := by
  obtain ⟨rx, mode, messages⟩ := conn
  have hs (message : Message) : CanDrain type ⟨rx, .sending message, messages⟩ := by
    refine .of_step (.sent true) rfl ?_ ?_
    · cases type <;> rfl
    · cases type <;> exact h _
  cases mode
  case waiting => exact h _
  case sending message => exact hs message
  case collecting batch =>
    obtain rfl := hf batch rfl
    exact .of_step .timeout rfl rfl <| hs _
  case ended => exact absurd rfl ho

theorem canDrain (hf : conn.Fits type) (ho : conn.isOpen) : conn.CanDrain type := by
  refine canDrain_of_waiting ?_ hf ho
  induction conn.rx
  case nil => exact fun messages => ⟨[], rfl, trivial, rfl, rfl⟩
  case cons event rx hi =>
    intro messages
    refine .of_step .recv rfl ?_ ?_
    · cases type <;> rfl
    · have hf : Fits type ⟨event :: rx, .waiting, messages⟩ := nofun
      refine canDrain_of_waiting ?_ hf.step ?_
      · cases type <;> exact hi
      · cases type <;> exact nofun

-- As long as the connection is open, each event that has been broadcast is delivered, counted or
-- still to be received iff no lag has been reported where it is ignored. What is still to be
-- received can be received.
theorem accounted_iff {actions : List Action}
    (ho : (Run.run (step type) start actions).isOpen) :
    ((Run.run (step type) start actions).Accounted (actions.flatMap Action.events) ↔
      Run.Along (step type) (fun conn action => silent type conn action = 0) start actions) ∧
    ((actions.flatMap Action.events).Pairwise (·.id < ·.id) →
      (Run.run (step type) start actions).delivered.Pairwise (·.id < ·.id)) ∧
    (Run.run (step type) start actions).CanDrain type := by
  have ht := Tally.start.run ho
  rw [List.nil_append, Nat.zero_add] at ht
  refine ⟨ht.accounted_iff_eq_zero.trans lost_eq_zero_iff, fun hp => ?_, ?_⟩
  · exact hp.sublist <| (List.sublist_append_left ..).trans ht.delivered
  · have hf : start.Fits type := nofun
    exact canDrain (hf.run actions) ho

def sampleEvent (id : UInt64) : ChangeEvent := ⟨id, "", "", [], []⟩

-- The second of three events is dropped while a batch with the first one is collected, respectively
-- while the stream waits.
def lagWhileCollecting : List Action :=
  [.broadcast (sampleEvent 1), .recv, .broadcast (sampleEvent 2), .broadcast (sampleEvent 3),
    .lagged 1, .sent true, .recv, .timeout, .sent true]

def lagWhileWaiting : List Action :=
  [.broadcast (sampleEvent 1), .recv, .sent true, .broadcast (sampleEvent 2),
    .broadcast (sampleEvent 3), .lagged 1, .recv, .sent true]

theorem lag_is_ignored :
    Run.run (step .webSocketChannel2023) start lagWhileCollecting = ⟨[], .waiting,
      [.notification [sampleEvent 1], .notification [sampleEvent 3]]⟩ ∧
    Run.run (step .streamingHTTPChannel2023) start lagWhileWaiting = ⟨[], .waiting,
      [.notification [sampleEvent 1], .notification [sampleEvent 3]]⟩ ∧
    ¬(Run.run (step .webSocketChannel2023) start lagWhileCollecting).Accounted
      [sampleEvent 1, sampleEvent 2, sampleEvent 3] ∧
    ¬(Run.run (step .streamingHTTPChannel2023) start lagWhileWaiting).Accounted
      [sampleEvent 1, sampleEvent 2, sampleEvent 3] := by
  have h : ¬Accounted ⟨[], .waiting,
      [.notification [sampleEvent 1], .notification [sampleEvent 3]]⟩
      [sampleEvent 1, sampleEvent 2, sampleEvent 3] := by
    intro ⟨es, ha, he⟩
    have ha' : Accounts [.notification [sampleEvent 1], .notification [sampleEvent 3]]
        [sampleEvent 1, sampleEvent 3] := ⟨[[_], [_]], .cons rfl (.cons rfl .nil), rfl⟩
    have hl := ha.length_eq ha'
    rw [List.append_nil] at he
    simp [← he] at hl
  exact ⟨by decide, by decide, h, h⟩

-- A lag that is reported between two batches is passed on.
def lagBetweenBatches : List Action :=
  [.broadcast (sampleEvent 1), .broadcast (sampleEvent 2), .lagged 1, .sent true]

theorem accounted_lagBetweenBatches :
    (Run.run (step .webSocketChannel2023) start lagBetweenBatches).Accounted
      [sampleEvent 1, sampleEvent 2] := by
  have ho : (Run.run (step .webSocketChannel2023) start lagBetweenBatches).isOpen := by
    unfold isOpen; decide
  exact (accounted_iff ho).left.mpr ⟨rfl, rfl, rfl, rfl, trivial⟩

end Connection

end Cdc
