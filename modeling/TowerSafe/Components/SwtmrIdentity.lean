/-
This file says that the identifier of a software timer is worth nothing once the timer is deleted:
whatever comes after, no call and no expiry finds a timer under it, until its generations have gone
all the way round.
-/

import TowerSafe.Components.Swtmr

namespace TowerSafe.Swtmr

open Library Option

/-! ### The time of a timer -/

/-- What `LOS_SwtmrTimeGet` returns, with the ticks it writes. -/
inductive TimeRet where
  | ok (tick : UInt32)
  | tickPtrNull
  | error (code : Errno)
  deriving DecidableEq

def osSysCycleToTick (config : Config) (cycle : UInt64) : UInt64 :=
  cycle * config.tickPerSecond.toUInt64 / config.sysClock.toUInt64

def osSortLinkGetTargetExpireTime (currTime responseTime : UInt64) : UInt64 :=
  if responseTime ≤ currTime then 0 else responseTime - currTime

def osNullInt : UInt64 := 0xFFFFFFFF

def osSwtmrTimeGet (config : Config) (swtmrs : Swtmrs) (swtmr : Nat) (currTime : UInt64) :
    UInt32 :=
  let time := osSysCycleToTick config
    (osSortLinkGetTargetExpireTime currTime (swtmrs.cbArray swtmr).responseTime)
  (if osNullInt < time then osNullInt else time).toUInt32

/-- `LOS_SwtmrTimeGet`, with whether `tick` is not `NULL`. -/
def losSwtmrTimeGet (config : Config) (swtmrs : Swtmrs) (swtmrId : Nat) (tick : Bool)
    (currTime : UInt64) : TimeRet :=
  if swtmrId ≥ osSwtmrMaxTimerID config then .error .idInvalid
  else if tick = false then .tickPtrNull
  else
    match swtmrs.lookUp config swtmrId with
    | .error code => .error code
    | .ok swtmr =>
        match (swtmrs.cbArray swtmr).ucState with
        | .unused => .error .notCreated
        | .created => .error .notStarted
        | .ticking => .ok (osSwtmrTimeGet config swtmrs swtmr currTime)

/-! ### Generations -/

def generations (config : Config) : Nat := 0xFFFFFFFF / config.limit

/-- The identifier that `OsSwtmrDelete` gives a control block. -/
def renewed (config : Config) (usTimerID : Nat) : Nat :=
  if usTimerID < osSwtmrMaxTimerID config - config.limit then usTimerID + config.limit
  else usTimerID % config.limit

/-- How often a control block gets a new identifier in a run. -/
def renewals (config : Config) (swtmr : Nat) : Machine → List Action → Nat
  | _, [] => 0
  | machine, action :: rest =>
      match machine.step config action with
      | none => 0
      | some next =>
          (if (next.swtmrs.cbArray swtmr).usTimerID = (machine.swtmrs.cbArray swtmr).usTimerID
            then 0 else 1) + renewals config swtmr next rest

/-- Nothing is found under an identifier: each call fails and changes nothing, and no message with
it runs a handler. -/
structure Swtmrs.Stale (config : Config) (swtmrs : Swtmrs) (swtmrId : Nat) : Prop where
  start : ∀ currTime, swtmrs.losSwtmrStart config swtmrId currTime = (swtmrs, .error .notCreated)
  stop : swtmrs.losSwtmrStop config swtmrId = (swtmrs, .error .notCreated)
  delete : swtmrs.losSwtmrDelete config swtmrId = (swtmrs, .error .notCreated)
  time : ∀ currTime, losSwtmrTimeGet config swtmrs swtmrId true currTime = .error .notCreated
  handler : ∀ item : SwtmrHandlerItem, item.swtmrID = swtmrId →
    swtmrs.osSwtmrTask config item = (swtmrs, false)

section

variable {config : Config} {swtmrs before middle after : Swtmrs} {swtmrId swtmr : Nat}

theorem maxTimerID_eq : osSwtmrMaxTimerID config = generations config * config.limit := rfl

theorem renewed_ofGeneration {generation : Nat} (slot : swtmr < config.limit)
    (below : generation < generations config) : renewed config (generation * config.limit + swtmr) =
      (generation + 1) % generations config * config.limit + swtmr := by
  have least : generations config * config.limit =
      (generations config - 1) * config.limit + config.limit := by
    rw [← Nat.succ_mul, Nat.succ_eq_add_one, Nat.sub_add_cancel (Nat.one_le_of_lt below)]
  unfold renewed
  rw [maxTimerID_eq, least, Nat.add_sub_cancel]
  by_cases last : generation + 1 < generations config
  · have next : (generation + 1) * config.limit ≤ (generations config - 1) * config.limit :=
      Nat.mul_le_mul_right _ (by omega)
    rw [Nat.succ_mul] at next
    rw [if_pos (by omega), Nat.mod_eq_of_lt last, Nat.succ_mul]
    omega
  · have isLast : generation = generations config - 1 := by omega
    rw [if_neg (by rw [isLast]; omega), isLast, Nat.sub_add_cancel (by omega), Nat.mod_self,
      Nat.zero_mul, Nat.zero_add, Nat.mul_add_mod', Nat.mod_eq_of_lt slot]

theorem renewed_iterate_eq (valid : swtmrId < osSwtmrMaxTimerID config) (count : Nat) :
    (renewed config)^[count] swtmrId =
      (swtmrId / config.limit + count) % generations config * config.limit +
        swtmrId % config.limit := by
  have slot := Nat.mod_lt swtmrId config.positive
  have first : swtmrId / config.limit < generations config :=
    (Nat.div_lt_iff_lt_mul config.positive).mpr valid
  induction count with
  | zero => rw [Function.iterate_zero_apply, Nat.add_zero, Nat.mod_eq_of_lt first, Nat.div_add_mod']
  | succ count hypothesis =>
    rw [Function.iterate_succ_apply', hypothesis,
      renewed_ofGeneration slot (Nat.mod_lt _ (Nat.zero_lt_of_lt first)), Nat.mod_add_mod,
      Nat.add_assoc]

/-- An identifier comes back when its generations have gone all the way round. -/
theorem renewed_iterate_eq_self_iff {count : Nat} (valid : swtmrId < osSwtmrMaxTimerID config) :
    (renewed config)^[count] swtmrId = swtmrId ↔ generations config ∣ count := by
  have first : swtmrId / config.limit < generations config :=
    (Nat.div_lt_iff_lt_mul config.positive).mpr valid
  rw [renewed_iterate_eq valid]
  conv_lhs => rhs; rw [← Nat.div_add_mod' swtmrId config.limit]
  rw [Nat.add_right_cancel_iff, Nat.mul_left_inj config.positive.ne']
  constructor
  · intro same
    have round : swtmrId / config.limit + count ≡ swtmrId / config.limit + 0
        [MOD generations config] := by
      rw [Nat.ModEq, same, Nat.add_zero, Nat.mod_eq_of_lt first]
    exact (Nat.modEq_zero_iff_dvd).mp (Nat.ModEq.add_left_cancel' _ round)
  · rintro ⟨rounds, rfl⟩
    rw [Nat.add_mul_mod_self_left, Nat.mod_eq_of_lt first]

theorem renewed_iterate_ne {count : Nat} (valid : swtmrId < osSwtmrMaxTimerID config)
    (positive : 0 < count) (below : count < generations config) :
    (renewed config)^[count] swtmrId ≠ swtmrId := fun same =>
  Nat.not_dvd_of_pos_of_lt positive below ((renewed_iterate_eq_self_iff valid).mp same)

theorem Swtmrs.Stale.of_ne (valid : swtmrId < osSwtmrMaxTimerID config)
    (other : (swtmrs.cbArray (swtmrId % config.limit)).usTimerID ≠ swtmrId) :
    swtmrs.Stale config swtmrId := by
  have looks : swtmrs.lookUp config swtmrId = .error .notCreated := by
    unfold Swtmrs.lookUp
    rw [if_neg (Nat.not_le.mpr valid), if_pos other]
  refine ⟨fun currTime => ?_, ?_, ?_, fun currTime => ?_, fun item isId => ?_⟩
  · unfold Swtmrs.losSwtmrStart
    rw [looks]
  · unfold Swtmrs.losSwtmrStop
    rw [looks]
  · unfold Swtmrs.losSwtmrDelete
    rw [looks]
  · unfold losSwtmrTimeGet
    rw [if_neg (Nat.not_le.mpr valid), if_neg (by decide), looks]
  · subst isId
    unfold Swtmrs.osSwtmrTask
    rw [if_pos other, ite_self]

/-! ### Who renews an identifier -/

/-- The identifiers after an operation: each is that of before, or the next one. -/
def Swtmrs.Renews (config : Config) (before after : Swtmrs) : Prop :=
  ∀ swtmr, (after.cbArray swtmr).usTimerID = (before.cbArray swtmr).usTimerID ∨
    (after.cbArray swtmr).usTimerID = renewed config (before.cbArray swtmr).usTimerID

/-- The identifiers are those of before. -/
def Swtmrs.SameIds (before after : Swtmrs) : Prop :=
  ∀ swtmr, (after.cbArray swtmr).usTimerID = (before.cbArray swtmr).usTimerID

namespace Swtmrs

theorem SameIds.renews (same : SameIds before after) : Renews config before after :=
  fun swtmr => .inl (same swtmr)

theorem SameIds.trans (first : SameIds before middle) (second : SameIds middle after) :
    SameIds before after := fun swtmr => (second swtmr).trans (first swtmr)

theorem SameIds.trans_renews (first : SameIds before middle)
    (second : Renews config middle after) : Renews config before after := fun swtmr => by
  rw [← first swtmr]
  exact second swtmr

theorem Touches.sameIds (touches : Touches swtmr before after) : SameIds before after :=
  fun other => by
    by_cases here : other = swtmr
    · rw [here]
      exact touches.id
    · rw [touches.others other here]

theorem modify_sameIds {change : SwtmrCtrl → SwtmrCtrl}
    (same : ∀ block, (change block).usTimerID = block.usTimerID) :
    SameIds swtmrs (swtmrs.modify swtmr change) := fun other => by
  by_cases here : other = swtmr
  · rw [here, modify_self, same]
  · exact congrArg SwtmrCtrl.usTimerID (Function.update_of_ne here _ _)

theorem osSwtmrDelete_renews : Renews config swtmrs (swtmrs.osSwtmrDelete config swtmr) :=
  fun other => by
    by_cases here : other = swtmr
    · rw [here, osSwtmrDelete_self]
      exact .inr rfl
    · exact .inl (congrArg SwtmrCtrl.usTimerID (Function.update_of_ne here _ _))

theorem scanNext_sameIds {currTime : UInt64} (ran : swtmrs.scanNext config currTime = some after) :
    SameIds swtmrs after := by
  unfold scanNext at ran
  split at ran
  · cases ran
  rename_i first rest linked
  split at ran
  · obtain rfl := some.inj ran
    refine @Touches.sameIds _ _ first ?_
    exact (modify_touches rfl rfl).trans
      (osDeleteNodeSortLink_touches.trans osSwtmrTimeoutHandle_touches)
  · cases ran

theorem losSwtmrStart_sameIds {currTime : UInt64} :
    SameIds swtmrs (swtmrs.losSwtmrStart config swtmrId currTime).1 := by
  have started : ∀ before : Swtmrs, ∀ swtmr, SameIds before
      ((before.modify swtmr fun block => { block with startTime := currTime }).osSwtmrStart config
        swtmr) := fun before swtmr => by
    refine @Touches.sameIds _ _ swtmr ?_
    exact (modify_touches rfl rfl).trans osSwtmrStart_touches
  unfold losSwtmrStart
  split
  · exact fun _ => rfl
  split
  · exact fun _ => rfl
  · exact osSwtmrStop_touches.sameIds.trans (started _ _)
  · exact started _ _

theorem losSwtmrStop_sameIds : SameIds swtmrs (swtmrs.losSwtmrStop config swtmrId).1 := by
  unfold losSwtmrStop
  split
  · exact fun _ => rfl
  split
  · exact fun _ => rfl
  · exact fun _ => rfl
  · exact osSwtmrStop_touches.sameIds

theorem losSwtmrDelete_renews : Renews config swtmrs (swtmrs.losSwtmrDelete config swtmrId).1 := by
  unfold losSwtmrDelete
  split
  · exact fun _ => .inl rfl
  split
  · exact fun _ => .inl rfl
  · exact osSwtmrStop_touches.sameIds.trans_renews osSwtmrDelete_renews
  · exact osSwtmrDelete_renews

theorem osSwtmrTask_renews {item : SwtmrHandlerItem} :
    Renews config swtmrs (swtmrs.osSwtmrTask config item).1 := by
  unfold osSwtmrTask
  dsimp only
  split
  · exact fun _ => .inl rfl
  split
  · exact fun _ => .inl rfl
  · split
    · exact osSwtmrDelete_renews
    · exact fun _ => .inl rfl

end Swtmrs

theorem Machine.step_renews {machine next : Machine} {action : Action}
    (result : machine.step config action = some next) :
    Swtmrs.Renews config machine.swtmrs next.swtmrs := by
  unfold Machine.step at result
  cases scanning : machine.scan with
  | some currTime =>
    rw [scanning] at result
    cases action with
    | scanNext =>
      dsimp only at result
      cases ran : machine.swtmrs.scanNext config currTime with
      | none =>
        rw [ran] at result
        obtain rfl := some.inj result
        exact fun _ => .inl rfl
      | some swtmrs =>
        rw [ran] at result
        obtain rfl := some.inj result
        exact (Swtmrs.scanNext_sameIds ran).renews
    | _ => cases result
  | none =>
    rw [scanning] at result
    unfold Machine.stepOutside at result
    cases action with
    | create param =>
      obtain rfl := some.inj result
      unfold Machine.losSwtmrCreate
      split
      · exact fun _ => .inl rfl
      · split
        · exact fun _ => .inl rfl
        · exact fun _ => .inl rfl
    | fill index =>
      dsimp only at result
      split at result
      · split at result
        · cases result
        obtain rfl := some.inj result
        refine Swtmrs.SameIds.renews ?_
        dsimp only
        exact Swtmrs.modify_sameIds fun _ => rfl
      · cases result
    | finish index =>
      dsimp only at result
      split at result
      · split at result
        · obtain rfl := some.inj result
          refine Swtmrs.SameIds.renews ?_
          dsimp only
          exact Swtmrs.modify_sameIds fun _ => rfl
        · cases result
      · cases result
    | start swtmrId currTime =>
      obtain rfl := some.inj result
      exact Swtmrs.losSwtmrStart_sameIds.renews
    | stop swtmrId =>
      obtain rfl := some.inj result
      exact Swtmrs.losSwtmrStop_sameIds.renews
    | delete swtmrId =>
      obtain rfl := some.inj result
      exact Swtmrs.losSwtmrDelete_renews
    | read =>
      dsimp only at result
      split at result
      · obtain rfl := some.inj result
        exact fun _ => .inl rfl
      · cases result
    | handle =>
      dsimp only at result
      split at result
      · obtain rfl := some.inj result
        exact Swtmrs.osSwtmrTask_renews
      · cases result
    | scan currTime =>
      obtain rfl := some.inj result
      exact fun _ => .inl rfl
    | scanNext => cases result

theorem Machine.renewed_iterate {machine last : Machine} {actions : List Action}
    (run : execute (Machine.step config) (fun _ _ => true) machine actions = some last) :
    (last.swtmrs.cbArray swtmr).usTimerID = (renewed config)^[renewals config swtmr machine actions]
        (machine.swtmrs.cbArray swtmr).usTimerID := by
  induction actions generalizing machine with
  | nil =>
    obtain rfl := some.inj run
    rfl
  | cons action rest hypothesis =>
    obtain ⟨next, taken, run⟩ := bind_eq_some_iff.mp run
    rw [hypothesis run, renewals, taken]
    dsimp only
    by_cases same : (next.swtmrs.cbArray swtmr).usTimerID = (machine.swtmrs.cbArray swtmr).usTimerID
    · rw [if_pos same, Nat.zero_add, same]
    · rw [if_neg same, Nat.add_comm, Function.iterate_succ_apply,
        (Machine.step_renews taken swtmr).resolve_left same]

end

/-! ### Deleted timers -/

section

variable {config : Config} {swtmrs : Swtmrs} {swtmrId : Nat}

theorem losSwtmrDelete_ok (deleted : (swtmrs.losSwtmrDelete config swtmrId).2 = .ok) :
    swtmrId < osSwtmrMaxTimerID config ∧
      (((swtmrs.losSwtmrDelete config swtmrId).1).cbArray (swtmrId % config.limit)).usTimerID =
        renewed config swtmrId := by
  unfold Swtmrs.losSwtmrDelete at deleted ⊢
  cases looks : swtmrs.lookUp config swtmrId with
  | error code =>
    rw [looks] at deleted
    cases deleted
  | ok swtmr =>
    have found := looks
    unfold Swtmrs.lookUp at found
    split at found
    · cases found
    split at found
    · cases found
    rename_i valid same
    obtain rfl := Except.ok.inj found
    have isId := not_not.mp same
    refine ⟨Nat.not_le.mp valid, ?_⟩
    rw [looks] at deleted
    dsimp only at deleted ⊢
    cases state : (swtmrs.cbArray (swtmrId % config.limit)).ucState with
    | unused =>
      rw [state] at deleted
      cases deleted
    | created =>
      rw [Swtmrs.osSwtmrDelete_self]
      rw [isId]
      rfl
    | ticking =>
      rw [Swtmrs.osSwtmrDelete_self]
      rw [Swtmrs.osSwtmrStop_touches.id, isId]
      rfl

end

theorem swtmrs_of_delete {config : Config} {machine next : Machine} {swtmrId : Nat}
    (taken : machine.step config (.delete swtmrId) = some next) :
    next.swtmrs = (machine.swtmrs.losSwtmrDelete config swtmrId).1 := by
  unfold Machine.step at taken
  split at taken
  · obtain rfl := some.inj taken
    rfl
  · cases taken

/-- After a timer was deleted nothing is found under its identifier, whatever happens, until its
generations have gone all the way round. -/
theorem stale_after_delete (config : Config) (machine next later : Machine) (swtmrId : Nat)
    (deleted : (machine.swtmrs.losSwtmrDelete config swtmrId).2 = .ok)
    (taken : machine.step config (.delete swtmrId) = some next) (actions : List Action)
    (run : execute (Machine.step config) (fun _ _ => true) next actions = some later) (notWrapped :
      renewals config (swtmrId % config.limit) next actions + 1 < generations config) :
    later.swtmrs.Stale config swtmrId := by
  obtain ⟨valid, isRenewed⟩ := losSwtmrDelete_ok deleted
  refine .of_ne valid ?_
  rw [Machine.renewed_iterate run, swtmrs_of_delete taken, isRenewed, ← Function.iterate_succ_apply]
  exact renewed_iterate_ne valid (Nat.succ_pos _) notWrapped

/-- A timer that runs once is created, and expires. -/
def expiredRun : List Action :=
  [.create (fiveTicks .once), .fill 0, .finish 0, .start 0 100, .scan 5150, .scanNext, .scanNext]

def reusedRun : List Action :=
  [.create (fiveTicks .once), .fill 0, .finish 0, .start 2 6000]

/-- A timer is deleted while its message waits, and its control block is used again. -/
theorem stale_after_delete_sample : ∃ machine next later,
    execute (Machine.step twoTimers) (fun _ _ => true) (Machine.init twoTimers) expiredRun =
        some machine ∧
      machine.step twoTimers (.delete 0) = some next ∧
      execute (Machine.step twoTimers) (fun _ _ => true) next reusedRun = some later ∧
      later.swtmrs.handlerQueue = [⟨some 1, 0, 0⟩] ∧ later.swtmrs.sortLink = [0] ∧
      later.swtmrs.Stale twoTimers 0 := by
  have runs : ((execute (Machine.step twoTimers) (fun _ _ => true) (Machine.init twoTimers)
      expiredRun).bind fun machine => (machine.step twoTimers (.delete 0)).bind fun next =>
        (execute (Machine.step twoTimers) (fun _ _ => true) next reusedRun).map fun later =>
          (decide ((machine.swtmrs.losSwtmrDelete twoTimers 0).2 = .ok ∧
            renewals twoTimers 0 next reusedRun + 1 < generations twoTimers),
            later.swtmrs.handlerQueue, later.swtmrs.sortLink)) =
      some (true, [⟨some 1, 0, 0⟩], [0]) := by decide
  obtain ⟨machine, isMachine, runs⟩ := Option.bind_eq_some_iff.mp runs
  obtain ⟨next, isNext, runs⟩ := Option.bind_eq_some_iff.mp runs
  obtain ⟨later, isLater, same⟩ := Option.map_eq_some_iff.mp runs
  obtain ⟨holds, same⟩ := Prod.mk.inj same
  obtain ⟨queue, linked⟩ := Prod.mk.inj same
  obtain ⟨deleted, few⟩ := of_decide_eq_true holds
  exact ⟨machine, next, later, isMachine, isNext, isLater, queue, linked,
    stale_after_delete twoTimers machine next later 0 deleted isNext reusedRun isLater few⟩

/-- After a timer was deleted its identifier finds the control block again just when its
generations have gone all the way round. -/
theorem found_again_iff {config : Config} {machine next later : Machine} {swtmrId : Nat}
    (deleted : (machine.swtmrs.losSwtmrDelete config swtmrId).2 = .ok)
    (taken : machine.step config (.delete swtmrId) = some next) {actions : List Action}
    (run : execute (Machine.step config) (fun _ _ => true) next actions = some later) :
    let round := generations config ∣ renewals config (swtmrId % config.limit) next actions + 1
    (later.swtmrs.lookUp config swtmrId = .ok (swtmrId % config.limit) ↔ round) ∧
      (¬round → later.swtmrs.Stale config swtmrId) := by
  obtain ⟨valid, isRenewed⟩ := losSwtmrDelete_ok deleted
  have found : later.swtmrs.lookUp config swtmrId = .ok (swtmrId % config.limit) ↔
      (later.swtmrs.cbArray (swtmrId % config.limit)).usTimerID = swtmrId := by
    unfold Swtmrs.lookUp
    rw [if_neg (Nat.not_le.mpr valid)]
    split
    · rename_i other
      exact iff_of_false (by simp) other
    · rename_i same
      exact iff_of_true rfl (not_not.mp same)
  have isRound : (renewed config)^[renewals config (swtmrId % config.limit) next actions + 1]
      swtmrId = swtmrId ↔ _ := renewed_iterate_eq_self_iff valid
  rw [Function.iterate_succ_apply, ← isRenewed, ← swtmrs_of_delete taken,
    ← Machine.renewed_iterate run] at isRound
  exact ⟨found.trans isRound, fun other => .of_ne valid (mt isRound.mp other)⟩

/-- The identifier of a timer that was just deleted finds nothing. -/
theorem found_again_iff_sample : ∃ machine next,
    execute (Machine.step twoTimers) (fun _ _ => true) (Machine.init twoTimers) expiredRun =
        some machine ∧
      machine.step twoTimers (.delete 0) = some next ∧ next.swtmrs.lookUp twoTimers 0 ≠ .ok 0 := by
  have runs : ((execute (Machine.step twoTimers) (fun _ _ => true) (Machine.init twoTimers)
      expiredRun).bind fun machine => (machine.step twoTimers (.delete 0)).map fun _ =>
        decide ((machine.swtmrs.losSwtmrDelete twoTimers 0).2 = .ok)) = some true := by decide
  obtain ⟨machine, isMachine, runs⟩ := Option.bind_eq_some_iff.mp runs
  obtain ⟨next, isNext, deleted⟩ := Option.map_eq_some_iff.mp runs
  refine ⟨machine, next, isMachine, isNext, fun found => ?_⟩
  have run : execute (Machine.step twoTimers) (fun _ _ => true) next [] = some next := rfl
  have round := (found_again_iff (of_decide_eq_true deleted) isNext run).1.mp found
  exact absurd round (show ¬generations twoTimers ∣ 0 + 1 by decide)

end TowerSafe.Swtmr
