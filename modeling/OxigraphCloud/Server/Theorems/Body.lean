import OxigraphCloud.Server.Http

-- What becomes of the bodies of requests.

namespace Body

-- A declared length is the one of the content, unless the body breaks off.
def Declared (body : Body) : Prop :=
  ∀ n, body.length = some n → body.readError = none → body.content.length = n

-- What a limit is for: a body that is not longer is returned as a whole, a longer one is an error.
-- A body that breaks off is an error too.
structure Limited (body : Body) (maxSize : UInt64) (result : Option (Except HttpError Bytes)) :
    Prop where
  complete : body.readError = none → body.content.length ≤ maxSize.toNat →
    result = some (.ok body.content)
  tooLong  : maxSize.toNat < body.content.length → ∃ e, result = some (.error e)
  broken   : body.readError ≠ none → ∃ e, result = some (.error e)

variable {body : Body} {maxSize : UInt64}

theorem readToEnd_of_le (h : body.content.length ≤ maxCapacity) (he : body.readError = none) :
    body.readToEnd = .ok body.content := by
  rw [readToEnd, if_pos h, he]

theorem readToEnd_of_gt (h : maxCapacity < body.content.length) :
    body.readToEnd = .error (internalServerError "out of memory") := by
  rw [readToEnd, if_neg (not_le.mpr h)]

theorem readToEnd_of_broken (he : body.readError ≠ none) : ∃ e, body.readToEnd = .error e := by
  rw [readToEnd]
  split
  case isTrue =>
    split
    case h_1 e => exact ⟨_, rfl⟩
    case h_2 hn => exact absurd hn he
  case isFalse => exact ⟨_, rfl⟩

theorem take_of_lt {limit : UInt64} (h : body.content.length < limit.toNat) :
    body.take limit = body := by
  rw [take, if_neg (not_le.mpr h)]

theorem take_of_ge {limit : UInt64} (h : limit.toNat ≤ body.content.length) :
    body.take limit =
      { body with content := body.content.take limit.toNat, readError := none } := by
  rw [take, if_pos h]

section declared

variable (hn : body.length = some n)

include hn

theorem limitedWithMax_of_gt (h : maxSize.toNat < n) : ∃ e,
    body.limitedWithMax maxSize = some (.error e) := by
  rw [limitedWithMax, hn]
  exact ⟨_, if_pos h⟩

theorem limitedWithMax_of_le (h : n ≤ maxSize.toNat) (hc : n ≤ maxCapacity) :
    body.limitedWithMax maxSize = some body.readToEnd := by
  rw [limitedWithMax, hn]
  exact (if_neg (not_lt.mpr h)).trans (if_pos hc)

theorem limitedWithMax_eq_none (h : n ≤ maxSize.toNat) (hc : maxCapacity < n) :
    body.limitedWithMax maxSize = none := by
  rw [limitedWithMax, hn]
  exact (if_neg (not_lt.mpr h)).trans (if_neg (not_le.mpr hc))

theorem limited_iff_of_declared (hd : body.Declared) :
    body.Limited maxSize (body.limitedWithMax maxSize) ↔ (n ≤ maxSize.toNat → n ≤ maxCapacity) := by
  constructor
  · intro h hle
    by_contra hc
    have hnone := limitedWithMax_eq_none hn hle (not_le.mp hc)
    rw [hnone] at h
    by_cases he : body.readError = none
    case pos => cases h.complete he (hd n hn he ▸ hle)
    case neg =>
      obtain ⟨e, he⟩ := h.broken he
      cases he
  · intro h
    rcases lt_or_ge maxSize.toNat n
    case inl hgt =>
      have herror := limitedWithMax_of_gt hn hgt
      exact {
        complete := fun he hle => absurd (hd n hn he ▸ hle) (not_le.mpr hgt)
        tooLong  := fun _ => herror
        broken   := fun _ => herror }
    case inr hle =>
      rw [limitedWithMax_of_le hn hle (h hle)]
      have hbroken (he : body.readError ≠ none) : ∃ e, some body.readToEnd = some (.error e) := by
        obtain ⟨e, he⟩ := readToEnd_of_broken he
        exact ⟨e, congrArg some he⟩
      refine ⟨fun he _ => ?_, fun hgt => ?_, hbroken⟩
      · rw [readToEnd_of_le (hd n hn he ▸ h hle) he]
      · refine hbroken fun he => ?_
        have := hd n hn he
        omega

end declared

theorem limitedWithMax_of_streamed (hn : body.length = none) :
    body.limitedWithMax maxSize = some ((body.take (maxSize + 1)).readToEnd >>= fun payload =>
      if payload.length > maxSize.toNat then
        .error <| badRequest <| "Body too large (limit " ++ toString maxSize ++ " bytes)"
      else
        .ok payload) := by
  rw [limitedWithMax, hn]

-- With the largest limit nothing is read.
theorem limitedWithMax_of_wrap (hn : body.length = none) (hm : maxSize.toNat = 2 ^ 64 - 1) :
    body.limitedWithMax maxSize = some (.ok []) := by
  have hz : (maxSize + 1).toNat = 0 := by
    rw [UInt64.toNat_add, hm]
    rfl
  rw [limitedWithMax_of_streamed hn, take_of_ge (hz ▸ Nat.zero_le _), hz]
  rfl

theorem limitedWithMax_of_longer (hn : body.length = none) (hm : maxSize.toNat < 2 ^ 64 - 1)
    (hl : maxSize.toNat < body.content.length) :
    ∃ e, body.limitedWithMax maxSize = some (.error e) := by
  have hs : (maxSize + 1).toNat = maxSize.toNat + 1 := by
    rw [UInt64.toNat_add, UInt64.toNat_one, Nat.mod_eq_of_lt (by omega)]
  rw [limitedWithMax_of_streamed hn, take_of_ge (hs ▸ hl), hs]
  have ht : (body.content.take (maxSize.toNat + 1)).length = maxSize.toNat + 1 :=
    List.length_take_of_le hl
  rcases le_or_gt (maxSize.toNat + 1) maxCapacity
  case inl hc =>
    rw [readToEnd_of_le (ht.trans_le hc) rfl]
    exact ⟨_, congrArg some (if_pos ((Nat.lt_succ_self _).trans_eq ht.symm))⟩
  case inr hc =>
    rw [readToEnd_of_gt (hc.trans_eq ht.symm)]
    exact ⟨_, rfl⟩

theorem limitedWithMax_of_shorter (hn : body.length = none) (hm : maxSize.toNat < 2 ^ 64 - 1)
    (hl : body.content.length ≤ maxSize.toNat) :
    body.limitedWithMax maxSize = some body.readToEnd := by
  have hs : (maxSize + 1).toNat = maxSize.toNat + 1 := by
    rw [UInt64.toNat_add, UInt64.toNat_one, Nat.mod_eq_of_lt (by omega)]
  rw [limitedWithMax_of_streamed hn, take_of_lt (hs ▸ Nat.lt_succ_of_le hl)]
  cases hr : body.readToEnd
  case error => rfl
  case ok payload =>
    have hp : payload = body.content := by
      rw [readToEnd] at hr
      repeat' split at hr
      all_goals cases hr
      rfl
    exact congrArg some (if_neg (by rw [hp]; omega))

theorem limited_iff_of_streamed (hn : body.length = none) :
    body.Limited maxSize (body.limitedWithMax maxSize) ↔
      (maxSize.toNat = 2 ^ 64 - 1 → body.content = [] ∧ body.readError = none) ∧
      (body.readError = none → body.content.length ≤ maxSize.toNat →
        body.content.length ≤ maxCapacity) := by
  have hlt := maxSize.toNat_lt
  rcases Nat.lt_or_ge maxSize.toNat (2 ^ 64 - 1)
  case inr hm =>
    have hm : maxSize.toNat = 2 ^ 64 - 1 := by omega
    rw [limitedWithMax_of_wrap hn hm]
    constructor
    · intro h
      have he : body.readError = none := by
        by_contra he
        obtain ⟨e, he⟩ := h.broken he
        cases he
      have hc : body.content = [] := by
        rcases le_or_gt body.content.length maxSize.toNat
        case inl hl => exact (Except.ok.inj (Option.some.inj (h.complete he hl))).symm
        case inr hl =>
          obtain ⟨e, he⟩ := h.tooLong hl
          cases he
      exact ⟨fun _ => ⟨hc, he⟩, fun _ _ => hc ▸ Nat.zero_le _⟩
    · rintro ⟨h, -⟩
      obtain ⟨hc, he⟩ := h hm
      exact {
        complete := fun _ _ => by rw [hc]
        tooLong  := fun hl => absurd hl (by rw [hc]; exact Nat.not_lt_zero _)
        broken   := fun hb => absurd he hb }
  case inl hm =>
    rw [and_iff_right (fun h => absurd h hm.ne)]
    rcases lt_or_ge maxSize.toNat body.content.length
    case inl hl =>
      have herror := limitedWithMax_of_longer hn hm hl
      refine iff_of_true ?_ fun _ hle => absurd hle (not_le.mpr hl)
      exact ⟨fun _ hle => absurd hle (not_le.mpr hl), fun _ => herror, fun _ => herror⟩
    case inr hl =>
      rw [limitedWithMax_of_shorter hn hm hl]
      constructor
      · intro h he _
        by_contra hc
        have := h.complete he hl
        rw [readToEnd_of_gt (not_le.mp hc)] at this
        cases this
      · intro h
        refine ⟨fun he _ => ?_, fun hgt => absurd hl (not_le.mpr hgt), fun he => ?_⟩
        · rw [readToEnd_of_le (h he hl) he]
        · obtain ⟨e, he⟩ := readToEnd_of_broken he
          exact ⟨e, congrArg some he⟩

end Body

-- A limit works unless a stream has the largest one, where the number of bytes to read overflows,
-- or the body has more bytes than a vector can hold.
theorem limited_iff (body : Body) (maxSize : UInt64) (hd : body.Declared) :
    body.Limited maxSize (body.limitedWithMax maxSize) ↔
      (body.length = none → maxSize.toNat = 2 ^ 64 - 1 →
        body.content = [] ∧ body.readError = none) ∧
      (body.length = none → body.readError = none → body.content.length ≤ maxSize.toNat →
        body.content.length ≤ maxCapacity) ∧
      ∀ n, body.length = some n → n ≤ maxSize.toNat → n ≤ maxCapacity := by
  cases hn : body.length
  case none =>
    rw [Body.limited_iff_of_streamed hn]
    simp
  case some n =>
    rw [Body.limited_iff_of_declared hn hd]
    simp

theorem limited_hello :
    (Body.mk none [104, 101, 108, 108, 111] none).Limited 5
      ((Body.mk none [104, 101, 108, 108, 111] none).limitedWithMax 5) :=
  (limited_iff ⟨none, [104, 101, 108, 108, 111], none⟩ 5 (by rintro n ⟨⟩)).mpr (by decide)

-- With the largest limit a stream is returned as empty. A declared length that a vector cannot have
-- is not an error, but ends the process.
theorem not_limited :
    (Body.mk none [104, 101, 108, 108, 111] none).limitedWithMax 18446744073709551615 =
      some (.ok []) ∧
    ∀ content,
      (Body.mk (some (2 ^ 63)) content none).limitedWithMax 18446744073709551615 = none :=
  ⟨Body.limitedWithMax_of_wrap rfl (by decide), fun content =>
    Body.limitedWithMax_eq_none (n := 2 ^ 63) rfl (by decide) (by decide)⟩
