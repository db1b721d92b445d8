/-
This file embeds the token bucket that limits the messages of an endpoint, with every number on the
way in its type. It bounds the messages that are accepted in any window of time and says exactly
when no number wraps.
-/

import TowerSafe.Library.Computed

namespace TowerSafe.FlowControl

open Library Library.Computed List

/-! ### The bucket -/

def tokenPreMsg : Int := 1000

structure TokenBucket where
  rate : Int
  burst : Int
  last : Int
  used : Int
  deriving DecidableEq

inductive BucketStatus where
  | busy
  | idle
  | invalid
  deriving DecidableEq

def tbInitBucket (rate burst : Int) : TokenBucket where
  last := 0
  rate := rate
  burst := burst
  used := 0

/-- The `generated` of `TB_CheckMessage`. The rate is converted to `uint64` for the product. -/
def generated (bucket : TokenBucket) (now : Int) : Computed Int :=
  if now > bucket.last then do
    let elapsed ← unsigned 64 (now - bucket.last)
    let rate ← unsigned 64 bucket.rate
    unsigned 64 (elapsed * rate)
  else pure 0

/-- The `used` of `TB_CheckMessage`, which is converted to `uint64` for the comparison. -/
def charged (bucket : TokenBucket) (generated : Int) : Computed Int := do
  let used ← signed 32 (bucket.used + tokenPreMsg)
  let compared ← unsigned 64 used
  if generated > compared then pure 0
  else do
    let narrow ← signed 32 generated
    signed 32 (used - narrow)

/-- `TB_CheckMessage`, with the time that `SAMGR_GetProcessTime` returns; no bucket is `NULL`. -/
def tbCheckMessage (now : Int) : Option TokenBucket → Computed (BucketStatus × Option TokenBucket)
  | none => pure (.invalid, none)
  | some bucket => do
      let tokens ← generated bucket now
      let used ← charged bucket tokens
      let most ← signed 32 (bucket.burst * tokenPreMsg)
      if used ≥ most then pure (.busy, some bucket)
      else pure (.idle, some { bucket with used := used, last := now })

/-! ### Sequences of messages -/

def next (bucket : TokenBucket) (now : Int) : TokenBucket :=
  (tbCheckMessage now (some bucket)).value.2.getD bucket

def accepted (bucket : TokenBucket) (now : Int) : Bool :=
  (tbCheckMessage now (some bucket)).value.1 = .idle

def acceptedTimes : TokenBucket → List Int → List Int
  | _, [] => []
  | bucket, now :: rest =>
      (if accepted bucket now then [now] else []) ++ acceptedTimes (next bucket now) rest

/-- The bucket after each message. -/
def buckets : TokenBucket → List Int → List TokenBucket
  | _, [] => []
  | bucket, now :: rest => next bucket now :: buckets (next bucket now) rest

def NothingWraps : TokenBucket → List Int → Prop
  | _, [] => True
  | bucket, now :: rest => (tbCheckMessage now (some bucket)).fits = true ∧
      NothingWraps (next bucket now) rest

/-- The tokens since the last accepted message fit in a `uint64`, for every message. -/
def TokensFit : TokenBucket → List Int → Prop
  | _, [] => True
  | bucket, now :: rest => (now - bucket.last) * bucket.rate < 2 ^ 64 ∧
      TokensFit (next bucket now) rest

/-- How many of the messages in a window of time are accepted. -/
def acceptedWithin (bucket : TokenBucket) (times : List Int) (start length : Int) : Nat :=
  (acceptedTimes bucket times).countP fun now => start ≤ now ∧ now ≤ start + length

/-- The flow is controlled: in each window the messages that are accepted are at most the burst and
what the rate gives, the counter stays in its range, and no number wraps. -/
structure Controlled (rate burst : Int) (times : List Int) : Prop where
  window : ∀ start length, 0 ≤ length →
    (acceptedWithin (tbInitBucket rate burst) times start length : Int) ≤
      burst + (rate * length + (tokenPreMsg - 1)) / tokenPreMsg
  used : ∀ bucket ∈ buckets (tbInitBucket rate burst) times,
    0 ≤ bucket.used ∧ bucket.used ≤ burst * tokenPreMsg
  wraps : NothingWraps (tbInitBucket rate burst) times

/-! ### One message -/

/-- What holds of a bucket between messages, the last one of which came no later than `now`. -/
structure Valid (bucket : TokenBucket) (now : Int) : Prop where
  rate : 0 < bucket.rate ∧ bucket.rate < 2 ^ 31
  burst : 0 < bucket.burst ∧ bucket.burst * tokenPreMsg + tokenPreMsg < 2 ^ 31
  last : 0 ≤ bucket.last ∧ bucket.last ≤ now
  used : 0 ≤ bucket.used ∧ bucket.used < bucket.burst * tokenPreMsg
  now : now < 2 ^ 64

/-- The used tokens after a message, when the ones that came in are taken off. -/
def usedAfter (bucket : TokenBucket) (now : Int) : Int :=
  max 0 (bucket.used + tokenPreMsg - (now - bucket.last) * bucket.rate % 2 ^ 64)

variable {bucket : TokenBucket} {now later start finish : Int}

section

variable (valid : Valid bucket now)
include valid

theorem generated_value :
    (generated bucket now).value = (now - bucket.last) * bucket.rate % 2 ^ 64 := by
  have rate := valid.rate
  have last := valid.last
  have bound := valid.now
  unfold generated
  split
  · rw [value_bind, value_bind, value_unsigned, unsigned_of_fits (by omega),
      unsigned_of_fits (by omega)]
  · rw [show now - bucket.last = 0 by omega, Int.zero_mul]
    rfl

theorem generated_yields {kind : Int → Prop} :
    (generated bucket now).Yields kind ↔ (now - bucket.last) * bucket.rate < 2 ^ 64 ∧
      kind ((now - bucket.last) * bucket.rate) := by
  have rate := valid.rate
  have last := valid.last
  have bound := valid.now
  have positive : 0 ≤ (now - bucket.last) * bucket.rate := Int.mul_nonneg (by omega) (by omega)
  have elapsed : 0 ≤ now - bucket.last ∧ now - bucket.last < 2 ^ 64 := by omega
  have converted : 0 ≤ bucket.rate ∧ bucket.rate < 2 ^ 64 := by omega
  unfold generated
  split
  · rw [yields_bind, yields_unsigned, and_iff_right elapsed, yields_bind, yields_unsigned,
      and_iff_right converted, yields_unsigned, and_iff_right positive]
  · rw [show now - bucket.last = 0 by omega, Int.zero_mul, yields_pure]
    exact (and_iff_right (by decide)).symm

theorem charged_yields {tokens : Int} (positive : 0 ≤ tokens) :
    (charged bucket tokens).Yields (· = max 0 (bucket.used + tokenPreMsg - tokens)) := by
  have burst := valid.burst
  have used := valid.used
  unfold tokenPreMsg at *
  unfold charged tokenPreMsg
  have sum : -2 ^ 31 ≤ bucket.used + 1000 ∧ bucket.used + 1000 < 2 ^ 31 := by omega
  have compared : 0 ≤ bucket.used + 1000 ∧ bucket.used + 1000 < 2 ^ 64 := by omega
  rw [yields_bind, yields_signed, and_iff_right sum, yields_bind, yields_unsigned,
    and_iff_right compared]
  split
  · exact yields_pure.mpr (by omega)
  · have narrow : -2 ^ 31 ≤ tokens ∧ tokens < 2 ^ 31 := by omega
    rw [yields_bind, yields_signed, and_iff_right narrow, yields_signed]
    omega

theorem most_yields :
    (signed 32 (bucket.burst * tokenPreMsg)).Yields (· = bucket.burst * tokenPreMsg) := by
  have burst := valid.burst
  unfold tokenPreMsg at *
  exact yields_signed.mpr ⟨by omega, rfl⟩

theorem tbCheckMessage_value : (tbCheckMessage now (some bucket)).value =
      if usedAfter bucket now ≥ bucket.burst * tokenPreMsg then (.busy, some bucket)
      else (.idle, some { bucket with used := usedAfter bucket now, last := now }) := by
  unfold tbCheckMessage usedAfter
  rw [value_bind, generated_value valid, value_bind,
    (charged_yields valid (Int.emod_nonneg _ (by decide))).value, value_bind,
    (most_yields valid).value]
  split
  · rfl
  · rfl

theorem tbCheckMessage_fits : (tbCheckMessage now (some bucket)).fits = true ↔
      (now - bucket.last) * bucket.rate < 2 ^ 64 := by
  rw [← yields_true]
  have rate := valid.rate
  have last := valid.last
  have positive : 0 ≤ (now - bucket.last) * bucket.rate := Int.mul_nonneg (by omega) (by omega)
  unfold tbCheckMessage
  rw [yields_bind, generated_yields valid]
  refine and_iff_left (yields_bind.mpr ⟨(charged_yields valid positive).fits, ?_⟩)
  refine yields_bind.mpr ⟨(most_yields valid).fits, ?_⟩
  split
  · exact yields_pure.mpr trivial
  · exact yields_pure.mpr trivial

theorem accepted_iff :
    accepted bucket now = true ↔ usedAfter bucket now < bucket.burst * tokenPreMsg := by
  unfold accepted
  rw [tbCheckMessage_value valid]
  split
  · exact iff_of_false nofun (by omega)
  · exact iff_of_true rfl (by omega)

theorem next_eq : next bucket now = if accepted bucket now then
      { bucket with used := usedAfter bucket now, last := now } else bucket := by
  by_cases holds : accepted bucket now = true
  · have below := (accepted_iff valid).mp holds
    rw [if_pos holds]
    unfold next
    rw [tbCheckMessage_value valid, if_neg (by omega)]
    rfl
  · have above := mt (accepted_iff valid).mpr holds
    rw [if_neg holds]
    unfold next
    rw [tbCheckMessage_value valid, if_pos (by omega)]
    rfl

theorem Valid.next (after : now ≤ later) (bound : later < 2 ^ 64) :
    Valid (next bucket now) later := by
  have last := valid.last
  rw [next_eq valid]
  split
  · rename_i holds
    have below := (accepted_iff valid).mp holds
    exact ⟨valid.rate, valid.burst, ⟨show 0 ≤ now by omega, after⟩,
      ⟨Int.le_max_left _ _, below⟩, bound⟩
  · exact ⟨valid.rate, valid.burst, ⟨last.1, by omega⟩, valid.used, bound⟩

/-! ### Windows -/

theorem Valid.mono (after : now ≤ later) (bound : later < 2 ^ 64) : Valid bucket later :=
  ⟨valid.rate, valid.burst, ⟨valid.last.1, by have := valid.last; omega⟩, valid.used, bound⟩

theorem le_usedAfter :
    bucket.used + tokenPreMsg - bucket.rate * (now - bucket.last) ≤ usedAfter bucket now := by
  have rate := valid.rate
  have last := valid.last
  have positive : 0 ≤ (now - bucket.last) * bucket.rate := Int.mul_nonneg (by omega) (by omega)
  have commuted : bucket.rate * (now - bucket.last) = (now - bucket.last) * bucket.rate :=
    Int.mul_comm _ _
  unfold usedAfter
  omega

end

/-- Times that do not decrease, from some time on. -/
structure Ordered (now : Int) (times : List Int) : Prop where
  sorted : times.Pairwise (· ≤ ·)
  after : ∀ time ∈ times, now ≤ time
  bound : ∀ time ∈ times, time < 2 ^ 64

variable {times : List Int}

theorem Ordered.tail (ordered : Ordered now (later :: times)) : Ordered later times :=
  ⟨(pairwise_cons.mp ordered.sorted).2, (pairwise_cons.mp ordered.sorted).1,
    fun time member => ordered.bound time (.tail _ member)⟩

theorem Ordered.head (ordered : Ordered now (later :: times)) : now ≤ later ∧ later < 2 ^ 64 :=
  ⟨ordered.after later (.head _), ordered.bound later (.head _)⟩

variable {time : Int}

theorem mem_of_acceptedTimes {bucket : TokenBucket}
    (member : time ∈ acceptedTimes bucket times) : time ∈ times := by
  induction times generalizing bucket with
  | nil => cases member
  | cons now rest hypothesis =>
    rcases mem_append.mp member with first | later
    · split at first
      · exact mem_singleton.mp first ▸ .head _
      · cases first
    · exact .tail _ (hypothesis later)

def countWithin (start finish : Int) (times : List Int) : Int :=
  times.countP fun now => start ≤ now ∧ now ≤ finish

theorem countWithin_eq_zero (later : ∀ time ∈ times, finish < time) :
    countWithin start finish times = 0 := by
  unfold countWithin
  rw [countP_eq_zero.mpr fun time member => ?_]
  · rfl
  · have := later time member
    simp only [decide_eq_true_eq]
    omega

theorem countWithin_cons_le :
    countWithin start finish (time :: times) ≤ 1 + countWithin start finish times := by
  unfold countWithin
  rw [countP_cons]
  split
  · omega
  · omega

theorem countWithin_cons_of_lt (before : time < start) :
    countWithin start finish (time :: times) = countWithin start finish times := by
  unfold countWithin
  rw [countP_cons_of_neg (by simp only [decide_eq_true_eq]; omega)]

theorem acceptedTimes_cons (holds : accepted bucket now = true) :
    acceptedTimes bucket (now :: times) = now :: acceptedTimes (next bucket now) times := by
  rw [acceptedTimes, if_pos holds]
  rfl

section

variable (valid : Valid bucket now)
include valid

theorem acceptedTimes_cons_of_busy (busy : accepted bucket now ≠ true) :
    acceptedTimes bucket (now :: times) = acceptedTimes bucket times := by
  rw [acceptedTimes, if_neg busy, next_eq valid, if_neg busy]
  rfl

section

variable (ordered : Ordered now times)
include ordered

/-- Once a message of the window is accepted, the later ones are paid for by what is left of the
burst and by the tokens that come in. -/
theorem countWithin_after (inside : bucket.last ≤ finish) :
    tokenPreMsg * countWithin start finish (acceptedTimes bucket times) ≤
      bucket.burst * tokenPreMsg - 1 - bucket.used + bucket.rate * (finish - bucket.last) := by
  induction times generalizing bucket now with
  | nil =>
    have used := valid.used
    have coming : 0 ≤ bucket.rate * (finish - bucket.last) :=
      Int.mul_nonneg (Int.le_of_lt valid.rate.1) (Int.sub_nonneg.mpr inside)
    unfold acceptedTimes countWithin
    rw [countP_nil]
    omega
  | cons time rest hypothesis =>
    have validTime := valid.mono ordered.head.1 ordered.head.2
    by_cases holds : accepted bucket time = true
    · rw [acceptedTimes_cons holds]
      by_cases late : finish < time
      · have used := valid.used
        have coming : 0 ≤ bucket.rate * (finish - bucket.last) :=
          Int.mul_nonneg (Int.le_of_lt valid.rate.1) (Int.sub_nonneg.mpr inside)
        have none_ : countWithin start finish
            (time :: acceptedTimes (next bucket time) rest) = 0 := by
          refine countWithin_eq_zero fun other member => ?_
          rcases mem_cons.mp member with rfl | member
          · exact late
          · have := ordered.tail.after other (mem_of_acceptedTimes member)
            omega
        rw [none_, Int.mul_zero]
        omega
      · have isNext := next_eq validTime
        rw [if_pos holds] at isNext
        have validNext := validTime.next (Int.le_refl time) ordered.head.2
        have others := hypothesis validNext ordered.tail (by rw [isNext]; exact Int.not_lt.mp late)
        have paid := le_usedAfter validTime
        have one := @countWithin_cons_le start finish (acceptedTimes (next bucket time) rest) time
        have split_ : bucket.rate * (finish - bucket.last) =
            bucket.rate * (finish - time) + bucket.rate * (time - bucket.last) := by ring
        have same : (next bucket time).burst = bucket.burst ∧
            (next bucket time).used = usedAfter bucket time ∧
            (next bucket time).rate = bucket.rate ∧ (next bucket time).last = time := by
          rw [isNext]
          exact ⟨rfl, rfl, rfl, rfl⟩
        rw [same.2.2.1, same.2.2.2] at others
        unfold tokenPreMsg at *
        omega
    · rw [acceptedTimes_cons_of_busy validTime holds]
      exact hypothesis validTime ordered.tail inside

/-- In a window the messages are paid for by the burst, by the tokens that come in, and by the one
message that may find the bucket full. -/
theorem countWithin_le
    (window : start ≤ finish) :
    tokenPreMsg * countWithin start finish (acceptedTimes bucket times) ≤
      bucket.burst * tokenPreMsg + (tokenPreMsg - 1) + bucket.rate * (finish - start) := by
  have coming : 0 ≤ bucket.rate * (finish - start) :=
    Int.mul_nonneg (Int.le_of_lt valid.rate.1) (Int.sub_nonneg.mpr window)
  induction times generalizing bucket now with
  | nil =>
    have burst := valid.burst
    unfold acceptedTimes countWithin tokenPreMsg at *
    rw [countP_nil]
    omega
  | cons time rest hypothesis =>
    have validTime := valid.mono ordered.head.1 ordered.head.2
    by_cases holds : accepted bucket time = true
    · have isNext := next_eq validTime
      rw [if_pos holds] at isNext
      have same : (next bucket time).burst = bucket.burst ∧
          (next bucket time).used = usedAfter bucket time ∧
          (next bucket time).rate = bucket.rate ∧ (next bucket time).last = time := by
        rw [isNext]
        exact ⟨rfl, rfl, rfl, rfl⟩
      have validNext := validTime.next (Int.le_refl time) ordered.head.2
      rw [acceptedTimes_cons holds]
      by_cases early : time < start
      · rw [countWithin_cons_of_lt early]
        have others := hypothesis validNext ordered.tail (by rw [same.2.2.1]; exact coming)
        rw [same.1, same.2.2.1] at others
        exact others
      · by_cases late : finish < time
        · have burst := valid.burst
          have none_ : countWithin start finish
              (time :: acceptedTimes (next bucket time) rest) = 0 := by
            refine countWithin_eq_zero fun other member => ?_
            rcases mem_cons.mp member with rfl | member
            · exact late
            · have := ordered.tail.after other (mem_of_acceptedTimes member)
              omega
          unfold tokenPreMsg at *
          omega
        · have others := @countWithin_after (next bucket time) _ start finish rest validNext
            ordered.tail (by rw [same.2.2.2]; exact Int.not_lt.mp late)
          have one := @countWithin_cons_le start finish (acceptedTimes (next bucket time) rest) time
          have shorter : bucket.rate * (finish - time) ≤ bucket.rate * (finish - start) :=
            Int.mul_le_mul_of_nonneg_left (by omega) (Int.le_of_lt valid.rate.1)
          have used := validNext.used
          rw [same.2.2.1, same.2.2.2] at others
          unfold tokenPreMsg at *
          omega
    · rw [acceptedTimes_cons_of_busy validTime holds]
      exact hypothesis validTime ordered.tail coming

/-! ### Whole sequences -/

theorem used_of_mem_buckets {after : TokenBucket} (member : after ∈ buckets bucket times) :
    0 ≤ after.used ∧ after.used ≤ bucket.burst * tokenPreMsg := by
  induction times generalizing bucket now with
  | nil => cases member
  | cons time rest hypothesis =>
    have validTime := valid.mono ordered.head.1 ordered.head.2
    have validNext := validTime.next (Int.le_refl time) ordered.head.2
    have sameBurst : (next bucket time).burst = bucket.burst := by
      rw [next_eq validTime]
      split
      · rfl
      · rfl
    rcases mem_cons.mp member with rfl | member
    · have used := validNext.used
      rw [sameBurst] at used
      omega
    · rw [← sameBurst]
      exact hypothesis validNext ordered.tail member

/-- Along a sequence nothing wraps exactly when the tokens fit at every message. -/
theorem nothingWraps_iff : NothingWraps bucket times ↔ TokensFit bucket times := by
  induction times generalizing bucket now with
  | nil => rfl
  | cons time rest hypothesis =>
    have validTime := valid.mono ordered.head.1 ordered.head.2
    have validNext := validTime.next (Int.le_refl time) ordered.head.2
    exact and_congr (tbCheckMessage_fits validTime) (hypothesis validNext ordered.tail)

end

end

theorem valid_tbInitBucket {rate burst : Int} (positive : 0 < rate ∧ 0 < burst)
    (rateFits : rate < 2 ^ 31) (burstFits : burst * tokenPreMsg + tokenPreMsg < 2 ^ 31) :
    Valid (tbInitBucket rate burst) 0 where
  rate := ⟨positive.1, rateFits⟩
  burst := ⟨positive.2, burstFits⟩
  last := ⟨Int.le_refl 0, Int.le_refl 0⟩
  used := ⟨Int.le_refl 0, Int.mul_pos positive.2 (by decide)⟩
  now := by decide

/-- The flow of an endpoint is controlled exactly when, at each message, the time since the last
accepted one times the rate fits in a `uint64`; only that no number wraps depends on it. -/
theorem controlled_iff {rate burst : Int} (positive : 0 < rate ∧ 0 < burst)
    (rateFits : rate < 2 ^ 31) (burstFits : burst * tokenPreMsg + tokenPreMsg < 2 ^ 31)
    {times : List Int} (ordered : Ordered 0 times) :
    Controlled rate burst times ↔ TokensFit (tbInitBucket rate burst) times := by
  have valid := valid_tbInitBucket positive rateFits burstFits
  refine ⟨fun controlled => (nothingWraps_iff valid ordered).mp controlled.wraps, fun fit => ?_⟩
  refine ⟨fun start length long => ?_, fun after member => ?_,
    (nothingWraps_iff valid ordered).mpr fit⟩
  · have most := @countWithin_le _ _ start (start + length) times valid ordered (by omega)
    have isLength : start + length - start = length := by omega
    rw [isLength] at most
    unfold countWithin at most
    unfold acceptedWithin
    unfold tbInitBucket tokenPreMsg at *
    dsimp only at most
    omega
  · exact used_of_mem_buckets valid ordered member

theorem controlled_iff_sample :
    Controlled 1000 2 [5, 5, 5, 6] ↔ TokensFit (tbInitBucket 1000 2) [5, 5, 5, 6] :=
  controlled_iff ⟨by decide, by decide⟩ (by decide) (by decide) ⟨by decide, by decide, by decide⟩

/-- With a rate of twenty million the tokens of the first message wrap, when it comes a trillion
milliseconds after the epoch of the clock. -/
theorem tokens_wrap : Ordered 0 [1000000000000] ∧ ¬ Controlled 20000000 1 [1000000000000] := by
  refine ⟨⟨by decide, by decide, by decide⟩, fun controlled => ?_⟩
  exact absurd controlled.wraps.1 (by decide)

end TowerSafe.FlowControl
