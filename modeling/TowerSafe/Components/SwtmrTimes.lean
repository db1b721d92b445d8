/-
This file is about the order of the sort link of the software timers. A node goes behind those
that are not later, except where the first two nodes are as early as it is: then it goes between
them, out of the order of insertion.
-/

import TowerSafe.Components.Swtmr

namespace TowerSafe.Swtmr

open Library List Option
open Function (update update_self update_of_ne)

/-! ### Insertion -/

section

variable {time : Nat → Nat} {node : Nat} {nodes : List Nat}

/-- The first two nodes of a list are as early as a node. -/
def TwoFirst (time : Nat → Nat) (node : Nat) : List Nat → Prop
  | first :: second :: _ => time first = time node ∧ time second = time node
  | _ => False

theorem dropWhile_of_sorted (sorted : nodes.Pairwise fun one other => time other ≤ time one) :
    ∀ one ∈ nodes.dropWhile fun one => decide (time node < time one), time one ≤ time node := by
  induction nodes with
  | nil => exact fun _ member => absurd member not_mem_nil
  | cons first rest hypothesis =>
    obtain ⟨latest, sorted⟩ := pairwise_cons.mp sorted
    intro one member
    rw [dropWhile_cons] at member
    split at member
    · exact hypothesis sorted one member
    rename_i early
    have early := Nat.not_lt.mp fun late => early (decide_eq_true late)
    rcases mem_cons.mp member with rfl | member
    · exact early
    · exact (latest one member).trans early

/-- A node goes between those that are not later and those that are not earlier, and behind all that
are as early unless they are the first two or more. -/
theorem osAddNode2SortLink_spec (sorted : nodes.Pairwise fun one other => time one ≤ time other) :
    ∃ front back, nodes = front ++ back ∧
      Kernel.Sched.osAddNode2SortLink (fun one => some (time one)) node nodes =
        front ++ node :: back ∧
      (∀ one ∈ front, time one ≤ time node) ∧ (∀ one ∈ back, time node ≤ time one) ∧
        ((∀ one ∈ back, time node < time one) ↔ ¬TwoFirst time node nodes) := by
  cases nodes with
  | nil => exact ⟨[], [], rfl, rfl, nofun, nofun, iff_of_true nofun id⟩
  | cons first rest =>
    obtain ⟨least, sorted⟩ := pairwise_cons.mp sorted
    rw [Kernel.Sched.osAddNode2SortLink]
    simp only [getD_some]
    split
    · rename_i early
      have all : ∀ one ∈ first :: rest, time node < time one := fun one member =>
        (mem_cons.mp member).elim (fun same => same ▸ early) fun member =>
          early.trans_le (least one member)
      refine ⟨[], _, rfl, rfl, nofun, fun one member => (all one member).le, iff_of_true all ?_⟩
      cases rest with
      | nil => exact id
      | cons second rest => exact fun two => early.ne' two.1
    · split
      · rename_i same
        refine ⟨[first], rest, rfl, rfl, fun one member => ?_, fun one member =>
          same ▸ least one member, ?_⟩
        · rw [mem_singleton.mp member, same]
        · cases rest with
          | nil => exact iff_of_true nofun id
          | cons second rest =>
            refine ⟨fun later two => (later second mem_cons_self).ne' two.2,
              fun one other member => ?_⟩
            have after := least second mem_cons_self
            have different : time second ≠ time node := fun equal => one ⟨same, equal⟩
            rcases mem_cons.mp member with rfl | member
            · omega
            · have := (pairwise_cons.mp sorted).1 other member
              omega
      · have late : time first < time node := by omega
        have reversed := pairwise_reverse.mpr sorted
        have earlier := @dropWhile_of_sorted time node _ reversed
        have later : ∀ one ∈ rest.reverse.takeWhile fun one => decide (time node < time one),
            time node < time one := fun one member => by
          simpa using mem_takeWhile_imp member
        have split := (congrArg List.reverse (takeWhile_append_dropWhile
          (p := fun one => decide (time node < time one)) (l := rest.reverse))).trans
            (reverse_reverse rest)
        rw [reverse_append] at split
        generalize rest.reverse.takeWhile _ = back at split later
        generalize rest.reverse.dropWhile _ = front at split earlier ⊢
        subst split
        rw [drop_left]
        refine ⟨first :: front.reverse, back.reverse, rfl, rfl, fun one member => ?_,
          fun one member => (later one (mem_reverse.mp member)).le,
          iff_of_true (fun one member => later one (mem_reverse.mp member)) ?_⟩
        · rcases mem_cons.mp member with rfl | member
          · exact late.le
          · exact earlier one (mem_reverse.mp member)
        · cases front.reverse ++ back.reverse with
          | nil => exact id
          | cons second rest => exact fun two => late.ne two.1

end

/-! ### The order of the sort link -/

namespace Swtmrs

variable (swtmrs : Swtmrs) (node : Nat)

def time (node : Nat) : Nat := (swtmrs.cbArray node).responseTime.toNat

/-- The nodes of the sort link are in the order of their response times. -/
def Sorted : Prop :=
  swtmrs.sortLink.Pairwise fun one other => swtmrs.time one ≤ swtmrs.time other

/-- The first node of the sort link is the earliest. -/
def FirstEarliest : Prop :=
  ∀ first ∈ swtmrs.sortLink.head?, ∀ one ∈ swtmrs.sortLink, swtmrs.time first ≤ swtmrs.time one

theorem Sorted.firstEarliest {swtmrs : Swtmrs} (sorted : swtmrs.Sorted) : swtmrs.FirstEarliest := by
  intro first is one member
  rw [Sorted] at sorted
  cases nodes : swtmrs.sortLink with
  | nil => exact absurd (nodes ▸ member) not_mem_nil
  | cons head rest =>
    rw [nodes] at sorted is member
    obtain rfl : head = first := some_inj.mp is
    rcases mem_cons.mp member with rfl | member
    · exact le_rfl
    · exact (pairwise_cons.mp sorted).1 one member

/-- A node has been added at its place, behind those that are as early, and nothing else has
changed. -/
structure Added (before after : Swtmrs) (node : Nat) (responseTime : UInt64) : Prop where
  responseTime : (after.cbArray node).responseTime = responseTime
  others : ∀ other, other ≠ node → after.cbArray other = before.cbArray other
  placed : ∃ front back, before.sortLink = front ++ back ∧ after.sortLink = front ++ node :: back ∧
    (∀ one ∈ front, after.time one ≤ after.time node) ∧
      ∀ one ∈ back, after.time node < after.time one
  sorted : after.Sorted
  firstEarliest : after.FirstEarliest

/-- A node has been removed, and nothing else has changed. -/
structure Removed (before after : Swtmrs) (node : Nat) : Prop where
  others : ∀ other, other ≠ node → after.cbArray other = before.cbArray other
  removed : ∃ front back, before.sortLink = front ++ node :: back ∧ after.sortLink = front ++ back
  sorted : after.Sorted
  firstEarliest : after.FirstEarliest

end Swtmrs

section

variable {config : Config} {swtmrs : Swtmrs} {node : Nat} {startTime : UInt64} {waitTicks : UInt32}

theorem osAdd2SortLink_time (startTime : UInt64) (waitTicks : UInt32) :
    (swtmrs.osAdd2SortLink config node startTime waitTicks).time =
      update swtmrs.time node (startTime + osSysTickToCycle config waitTicks).toNat := by
  funext other
  by_cases same : other = node
  · subst same
    simp [Swtmrs.time, Swtmrs.osAdd2SortLink, Swtmrs.modify]
  · rw [update_of_ne same]
    exact congrArg (fun block : SwtmrCtrl => block.responseTime.toNat) (update_of_ne same _ _)

theorem osAdd2SortLink_time_of_mem (out : node ∉ swtmrs.sortLink) {one : Nat}
    (member : one ∈ swtmrs.sortLink) :
    (swtmrs.osAdd2SortLink config node startTime waitTicks).time one = swtmrs.time one := by
  rw [osAdd2SortLink_time]
  exact update_of_ne (ne_of_mem_of_not_mem member out) _ _

/-- What `OsAdd2SortLink` makes of a sort link in order. -/
theorem osAdd2SortLink_spec (sorted : swtmrs.Sorted) (out : node ∉ swtmrs.sortLink) :
    let after := swtmrs.osAdd2SortLink config node startTime waitTicks
    ∃ front back, swtmrs.sortLink = front ++ back ∧ after.sortLink = front ++ node :: back ∧
      after.Sorted ∧ (∀ one ∈ front, after.time one ≤ after.time node) ∧
        ((∀ one ∈ back, after.time node < after.time one) ↔
          ¬TwoFirst after.time node swtmrs.sortLink) := by
  intro after
  have same : ∀ one ∈ swtmrs.sortLink, after.time one = swtmrs.time one := fun one member =>
    osAdd2SortLink_time_of_mem out member
  have ordered : swtmrs.sortLink.Pairwise fun one other => after.time one ≤ after.time other :=
    sorted.imp_of_mem fun oneIn otherIn order => by
      rw [same _ oneIn, same _ otherIn]
      exact order
  obtain ⟨front, back, split, added, before, behind, stable⟩ :=
    @osAddNode2SortLink_spec after.time node _ ordered
  refine ⟨front, back, split, added, ?_, before, stable⟩
  rw [split, pairwise_append] at ordered
  rw [Swtmrs.Sorted, show after.sortLink = front ++ node :: back from added, pairwise_append,
    pairwise_cons]
  refine ⟨ordered.1, ⟨behind, ordered.2.1⟩, fun one inFront other member => ?_⟩
  rcases mem_cons.mp member with rfl | inBack
  · exact before one inFront
  · exact ordered.2.2 one inFront other inBack

theorem Swtmrs.Sorted.congr {after : Swtmrs} (sorted : swtmrs.Sorted)
    (link : after.sortLink = swtmrs.sortLink)
    (same : ∀ one ∈ swtmrs.sortLink, after.cbArray one = swtmrs.cbArray one) : after.Sorted := by
  rw [Swtmrs.Sorted, link]
  refine sorted.imp_of_mem fun oneIn otherIn order => ?_
  rw [Swtmrs.time, Swtmrs.time, same _ oneIn, same _ otherIn]
  exact order

theorem Swtmrs.Sorted.delete (sorted : swtmrs.Sorted) (once : swtmrs.sortLink.Nodup) (node : Nat) :
    (swtmrs.osDeleteNodeSortLink node).Sorted := by
  have same : ∀ one ∈ swtmrs.sortLink.erase node,
      (swtmrs.osDeleteNodeSortLink node).time one = swtmrs.time one := fun one member =>
    congrArg (fun block : SwtmrCtrl => block.responseTime.toNat)
      (update_of_ne (once.mem_erase_iff.mp member).1 _ _)
  refine (List.Pairwise.sublist erase_sublist sorted).imp_of_mem fun oneIn otherIn order => ?_
  rw [same _ oneIn, same _ otherIn]
  exact order

/-- Adding a node to a sort link in order keeps the order and puts the node behind those that are as
early, just if the first two are not both as early; and deleting a linked node removes it, just if
its response time is not the greatest number of 64 bits. -/
theorem sortLink_iff (sorted : swtmrs.Sorted) (once : swtmrs.sortLink.Nodup) :
    (node ∉ swtmrs.sortLink →
      (Swtmrs.Added swtmrs (swtmrs.osAdd2SortLink config node startTime waitTicks) node
          (startTime + osSysTickToCycle config waitTicks) ↔
        ¬TwoFirst (update swtmrs.time node (startTime + osSysTickToCycle config waitTicks).toNat)
          node swtmrs.sortLink)) ∧
      (node ∈ swtmrs.sortLink →
        (Swtmrs.Removed swtmrs (swtmrs.osDeleteSortLink node) node ↔
          (swtmrs.cbArray node).responseTime ≠ osSortLinkInvalidTime)) := by
  refine ⟨fun out => ?_, fun member => ?_⟩
  · obtain ⟨front, back, split, added, ordered, before, stable⟩ := @osAdd2SortLink_spec
      config swtmrs node startTime waitTicks sorted out
    rw [← osAdd2SortLink_time, ← stable]
    refine ⟨fun placed => ?_, fun later => ⟨?_, fun other different => update_of_ne different _ _,
      ⟨front, back, split, added, before, later⟩, ordered, ordered.firstEarliest⟩⟩
    · obtain ⟨_, _, -, same, -, later⟩ := placed.placed
      rw [split, List.mem_append, not_or] at out
      rw [added, List.append_cons_inj_of_notMem out.1 out.2] at same
      exact same.2.2 ▸ later
    · simp [Swtmrs.osAdd2SortLink, Swtmrs.modify]
  · rw [Swtmrs.osDeleteSortLink]
    refine ⟨fun removed invalid => ?_, fun valid => ?_⟩
    · obtain ⟨front, back, before, after⟩ := removed.removed
      rw [if_neg (not_not.mpr invalid), before] at after
      have lengths := congrArg List.length after
      rw [List.length_append, List.length_append, List.length_cons] at lengths
      omega
    · rw [if_pos valid]
      obtain ⟨front, back, split⟩ := List.append_of_mem member
      have kept := sorted.delete once node
      rw [split, List.nodup_middle, List.nodup_cons, List.mem_append, not_or] at once
      have link : (swtmrs.osDeleteNodeSortLink node).sortLink = front ++ back := by
        change swtmrs.sortLink.erase node = _
        rw [split, List.erase_append_right _ once.1.1, List.erase_cons_head]
      have others : ∀ other, other ≠ node →
          (swtmrs.osDeleteNodeSortLink node).cbArray other = swtmrs.cbArray other :=
        fun other different => update_of_ne different _ _
      exact ⟨others, ⟨front, back, split, link⟩, kept, kept.firstEarliest⟩

end

/-- Periodic timers with their response times and intervals, linked in this order. -/
def lined (timers : List (UInt64 × UInt32)) : Swtmrs where
  cbArray block := {
    usTimerID := block
    ucState := .ticking
    ucMode := .period
    uwInterval := (timers.getD block (0, 0)).2
    responseTime := (timers.getD block (0, 0)).1 }
  freeList := none
  sortLink := List.range timers.length
  handlerQueue := []
  failed := false

theorem sortLink_iff_sample :
    let swtmrs := lined [(5, 1), (7, 1)]
    (2 ∉ swtmrs.sortLink →
      (Swtmrs.Added swtmrs (swtmrs.osAdd2SortLink twoTimers 2 5 0) 2
          (5 + osSysTickToCycle twoTimers 0) ↔
        ¬TwoFirst (update swtmrs.time 2 (5 + osSysTickToCycle twoTimers 0).toNat) 2
          swtmrs.sortLink)) ∧
      (2 ∈ swtmrs.sortLink → (Swtmrs.Removed swtmrs (swtmrs.osDeleteSortLink 2) 2 ↔
        (swtmrs.cbArray 2).responseTime ≠ osSortLinkInvalidTime)) :=
  sortLink_iff (by rw [Swtmrs.Sorted]; decide) (by decide)

/-- A third timer that is as early as the first two goes between them, and a timer that is due at the
greatest number of 64 bits is not deleted. -/
theorem sortLink_out_of_order : ¬Swtmrs.Added (lined [(5, 1), (5, 1)])
        ((lined [(5, 1), (5, 1)]).osAdd2SortLink twoTimers 2 5 0) 2
        (5 + osSysTickToCycle twoTimers 0) ∧
      ¬Swtmrs.Removed (lined [(osSortLinkInvalidTime, 1)])
        ((lined [(osSortLinkInvalidTime, 1)]).osDeleteSortLink 0) 0 := by
  constructor
  · intro added
    obtain ⟨front, back, before, after, -, later⟩ := added.placed
    change ([0] : List Nat) ++ 2 :: [1] = front ++ 2 :: back at after
    rw [List.append_cons_inj_of_notMem (by decide) (by decide)] at after
    exact absurd (later 1 (after.2.2 ▸ List.mem_cons_self)) (by decide)
  · intro removed
    obtain ⟨front, back, before, after⟩ := removed.removed
    have lengths := congrArg List.length (before.symm.trans after)
    rw [List.length_append, List.length_append, List.length_cons] at lengths
    omega

/-! ### Scans -/

namespace Swtmrs

variable (config : Config) (currTime : UInt64)

/-- The loop of `OsSwtmrScan`, in so many turns: the timers that expire, with the expiry time that is
recorded of each. -/
def osSwtmrScan : Nat → Swtmrs → Option (List (Nat × UInt64) × Swtmrs)
  | 0, _ => none
  | turns + 1, swtmrs =>
    match swtmrs.sortLink, swtmrs.scanNext config currTime with
    | first :: _, some next => do
      let (expired, after) ← osSwtmrScan turns next
      some ((first, (next.cbArray first).startTime) :: expired, after)
    | _, _ => some ([], swtmrs)

def cycles (swtmrs : Swtmrs) (node : Nat) : Nat :=
  (osSysTickToCycle config (swtmrs.cbArray node).uwInterval).toNat

/-- The intervals of the linked periodic timers are not empty, and lead from the time of a scan to
times of 64 bits. -/
def Fits (swtmrs : Swtmrs) : Prop :=
  ∀ one ∈ swtmrs.sortLink, (swtmrs.cbArray one).ucMode = .period →
    0 < swtmrs.cycles config one ∧ currTime.toNat + swtmrs.cycles config one < 2 ^ 64

/-- How often a timer can still expire in a scan. -/
def expiries (swtmrs : Swtmrs) (node : Nat) : Nat :=
  if (swtmrs.cbArray node).ucMode = .period then
    (currTime.toNat + swtmrs.cycles config node - swtmrs.time node) / swtmrs.cycles config node
  else 1

end Swtmrs

section

variable {config : Config} {currTime : UInt64} {swtmrs next : Swtmrs} {first : Nat}
variable {rest : List Nat}

/-- What a turn of the scan does with a timer that is due. -/
structure Expires (config : Config) (swtmrs next : Swtmrs) (first : Nat) : Prop where
  others : ∀ other, other ≠ first → next.cbArray other = swtmrs.cbArray other
  mode : (next.cbArray first).ucMode = (swtmrs.cbArray first).ucMode
  interval : (next.cbArray first).uwInterval = (swtmrs.cbArray first).uwInterval
  recorded : (next.cbArray first).startTime = (swtmrs.cbArray first).responseTime
  renewed : (swtmrs.cbArray first).ucMode = .period →
    (next.cbArray first).responseTime = (swtmrs.cbArray first).responseTime +
        osSysTickToCycle config (swtmrs.cbArray first).uwInterval ∧
      next.sortLink.Perm swtmrs.sortLink
  gone : (swtmrs.cbArray first).ucMode ≠ .period → next.sortLink = swtmrs.sortLink.erase first
  sorted : next.Sorted
  once : next.sortLink.Nodup

theorem Swtmrs.Sorted.start (sorted : swtmrs.Sorted) (once : swtmrs.sortLink.Nodup)
    (out : first ∉ swtmrs.sortLink) : (swtmrs.osSwtmrStart config first).Sorted ∧
      (swtmrs.osSwtmrStart config first).sortLink.Nodup := by
  have same : (swtmrs.modify first fun block => { block with ucState := .ticking }).Sorted :=
    sorted.congr rfl fun one member => update_of_ne (ne_of_mem_of_not_mem member out) _ _
  obtain ⟨_, _, _, _, ordered, -⟩ := @osAdd2SortLink_spec config _ first
    (swtmrs.cbArray first).startTime (swtmrs.cbArray first).uwInterval same out
  exact ⟨ordered, (Swtmrs.osAdd2SortLink_perm _ _).nodup_iff.mpr (nodup_cons.mpr ⟨out, once⟩)⟩

theorem expires_of_scanNext (sorted : swtmrs.Sorted) (once : swtmrs.sortLink.Nodup)
    (link : swtmrs.sortLink = first :: rest)
    (scanned : swtmrs.scanNext config currTime = some next) :
    Expires config swtmrs next first ∧ swtmrs.time first ≤ currTime.toNat := by
  rw [Swtmrs.scanNext, link] at scanned
  rw [ite_none_right_eq_some] at scanned
  obtain ⟨due, scanned⟩ := scanned
  refine ⟨?_, due⟩
  obtain rfl := some_inj.mp scanned
  generalize pops : (swtmrs.modify first fun block =>
    { block with startTime := block.responseTime }).osDeleteNodeSortLink first = before
  have touches : Swtmrs.Touches first swtmrs before :=
    pops ▸ (Swtmrs.modify_touches rfl rfl).trans Swtmrs.osDeleteNodeSortLink_touches
  have erased : before.sortLink = swtmrs.sortLink.erase first := by rw [← pops]; rfl
  have off : first ∉ before.sortLink := erased ▸ once.not_mem_erase
  have left : before.sortLink.Nodup := erased ▸ once.erase _
  have kept : before.Sorted := (sorted.delete once first).congr erased fun one member =>
    (touches.others one (once.mem_erase_iff.mp member).1).trans
      (update_of_ne (once.mem_erase_iff.mp member).1 _ _).symm
  have block : before.cbArray first = { swtmrs.cbArray first with
      startTime := (swtmrs.cbArray first).responseTime
      responseTime := osSortLinkInvalidTime } := by
    simp [← pops, Swtmrs.osDeleteNodeSortLink, Swtmrs.modify]
  have same : (before.cbArray first).ucMode = (swtmrs.cbArray first).ucMode := by rw [block]
  rw [Swtmrs.osSwtmrTimeoutHandle, same]
  obtain ⟨blocks, links, -⟩ := before.writeHandler_frame config ⟨(before.cbArray first).pfnHandler,
    (before.cbArray first).uwArg, (before.cbArray first).usTimerID⟩
  generalize before.writeHandler config _ = after at blocks links ⊢
  rw [← links] at erased off left
  replace kept : after.Sorted := kept.congr links fun one _ => by rw [blocks]
  have others : ∀ other, other ≠ first → after.cbArray other = swtmrs.cbArray other := by
    rw [blocks]
    exact touches.others
  rw [← blocks] at block
  cases mode : (swtmrs.cbArray first).ucMode with
  | period =>
    have counted : (after.modify first fun block =>
        { block with ucOverrun := block.ucOverrun + 1 }).Sorted :=
      kept.congr rfl fun one member => update_of_ne (ne_of_mem_of_not_mem member off) _ _
    obtain ⟨ordered, onceMore⟩ := @Swtmrs.Sorted.start config _ _ counted left off
    obtain ⟨self, perm, -⟩ := @Swtmrs.osSwtmrStart_self config (after.modify first fun block =>
      { block with ucOverrun := block.ucOverrun + 1 }) first
    rw [Swtmrs.modify_self, block] at self
    refine ⟨fun other different => ?_, ?_, ?_, ?_, fun _ => ⟨?_, ?_⟩, fun once => absurd mode once,
      ordered, onceMore⟩
    · exact (Swtmrs.osSwtmrStart_touches.others other different).trans
        ((update_of_ne different _ _).trans (others other different))
    · rw [self]
    · rw [self]
    · rw [self]
    · rw [self]
    · refine perm.trans (erased ▸ (perm_cons_erase ?_).symm)
      rw [link]
      exact mem_cons_self
  | noSelfdelete =>
    refine ⟨fun other different => ?_, ?_, ?_, ?_,
      fun period => absurd (mode.symm.trans period) (by decide), fun _ => erased,
      kept.congr rfl fun one member => update_of_ne (ne_of_mem_of_not_mem member off) _ _, left⟩
    · exact (update_of_ne different _ _).trans (others other different)
    all_goals rw [Swtmrs.modify_self, block]
  | once | opp =>
    refine ⟨others, ?_, ?_, ?_, fun period => absurd (mode.symm.trans period) (by decide),
      fun _ => erased, kept, left⟩
    all_goals rw [block]

namespace Expires

variable (expires : Expires config swtmrs next first)
include expires

theorem kept (one : Nat) : (next.cbArray one).ucMode = (swtmrs.cbArray one).ucMode ∧
    next.cycles config one = swtmrs.cycles config one := by
  rw [Swtmrs.cycles]
  by_cases same : one = first
  · rw [same, expires.mode, expires.interval]
    exact ⟨rfl, rfl⟩
  · rw [expires.others one same]
    exact ⟨rfl, rfl⟩

theorem subset {one : Nat} (member : one ∈ next.sortLink) : one ∈ swtmrs.sortLink := by
  by_cases period : (swtmrs.cbArray first).ucMode = .period
  · exact (expires.renewed period).2.mem_iff.mp member
  · exact mem_of_mem_erase (expires.gone period ▸ member)

theorem fits (fits : swtmrs.Fits config currTime) : next.Fits config currTime := by
  intro one member period
  rw [(expires.kept one).1] at period
  rw [(expires.kept one).2]
  exact fits one (expires.subset member) period

theorem time_first (due : swtmrs.time first ≤ currTime.toNat) (fits : swtmrs.Fits config currTime)
    (on : first ∈ swtmrs.sortLink) (period : (swtmrs.cbArray first).ucMode = .period) :
    next.time first = swtmrs.time first + swtmrs.cycles config first := by
  have room := (fits first on period).2
  rw [Swtmrs.time, (expires.renewed period).1, UInt64.toNat_add, Nat.mod_eq_of_lt]
  · rfl
  · exact lt_of_le_of_lt (Nat.add_le_add_right due _) room

theorem sum_expiries (due : swtmrs.time first ≤ currTime.toNat)
    (fits : swtmrs.Fits config currTime) (link : swtmrs.sortLink = first :: rest)
    (once : swtmrs.sortLink.Nodup) : (next.sortLink.map (next.expiries config currTime)).sum + 1 =
      (swtmrs.sortLink.map (swtmrs.expiries config currTime)).sum := by
  have on : first ∈ swtmrs.sortLink := link ▸ mem_cons_self
  have others : ∀ one ∈ rest, next.expiries config currTime one =
      swtmrs.expiries config currTime one := fun one member => by
    have different : one ≠ first := ne_of_mem_of_not_mem member (nodup_cons.mp (link ▸ once)).1
    rw [Swtmrs.expiries, Swtmrs.expiries, Swtmrs.time, Swtmrs.time, (expires.kept one).2,
      expires.others one different]
  rw [link, map_cons, sum_cons]
  by_cases period : (swtmrs.cbArray first).ucMode = .period
  · have positive := (fits first on period).1
    rw [((expires.renewed period).2.map _).sum_eq, link, map_cons, sum_cons,
      map_congr_left others, Swtmrs.expiries, Swtmrs.expiries, (expires.kept first).1,
      if_pos period, if_pos period, (expires.kept first).2, expires.time_first due fits on period]
    have split : currTime.toNat + swtmrs.cycles config first - swtmrs.time first =
        currTime.toNat - swtmrs.time first + swtmrs.cycles config first := by omega
    rw [split, Nat.add_div_right _ positive, Nat.add_sub_add_right]
    omega
  · rw [expires.gone period, link, erase_cons_head, map_congr_left others,
      show swtmrs.expiries config currTime first = 1 from if_neg period]
    omega

end Expires

end

/-- A periodic timer that was started at a time has expired so many times, and is due one interval
after the last one. -/
structure Ticks (config : Config) (swtmrs : Swtmrs) (node start interval count : Nat) : Prop where
  sorted : swtmrs.Sorted
  once : swtmrs.sortLink.Nodup
  linked : node ∈ swtmrs.sortLink
  period : (swtmrs.cbArray node).ucMode = .period
  every : swtmrs.cycles config node = interval
  due : swtmrs.time node = start + (count + 1) * interval

/-- The times of the expiries of a timer. -/
def timesOf (node : Nat) (expired : List (Nat × UInt64)) : List Nat :=
  (expired.filter fun one => one.1 = node).map fun one => one.2.toNat

section

variable {config : Config} {currTime : UInt64} {swtmrs next : Swtmrs}
variable {node start interval count : Nat}

theorem Ticks.expire (ticks : Ticks config swtmrs node start interval count) {first : Nat}
    (expires : Expires config swtmrs next first) (due : swtmrs.time first ≤ currTime.toNat)
    (fits : swtmrs.Fits config currTime) :
    Ticks config next node start interval (if first = node then count + 1 else count) := by
  have kept := expires.kept node
  refine ⟨expires.sorted, expires.once, ?_, kept.1.trans ticks.period, kept.2.trans ticks.every, ?_⟩
  · by_cases period : (swtmrs.cbArray first).ucMode = .period
    · exact (expires.renewed period).2.mem_iff.mpr ticks.linked
    · have different : node ≠ first := fun same => period (same ▸ ticks.period)
      rw [expires.gone period, mem_erase_of_ne different]
      exact ticks.linked
  · split
    · rename_i same
      subst same
      rw [expires.time_first due fits ticks.linked ticks.period, ticks.due, ticks.every]
      ring
    · rename_i different
      rw [← ticks.due, Swtmrs.time, expires.others node (Ne.symm different)]
      rfl

theorem Ticks.scan (ticks : Ticks config swtmrs node start interval count)
    (fits : swtmrs.Fits config currTime) {turns : Nat}
    (enough : (swtmrs.sortLink.map (swtmrs.expiries config currTime)).sum < turns) :
    ∃ expired after more, Swtmrs.osSwtmrScan config currTime turns swtmrs = some (expired, after) ∧
      Ticks config after node start interval (count + more) ∧ currTime.toNat < after.time node ∧
      timesOf node expired = (List.range' (count + 1) more).map fun one => start + one * interval := by
  induction turns generalizing swtmrs count with
  | zero => exact absurd enough (Nat.not_lt_zero _)
  | succ turns hypothesis =>
    cases link : swtmrs.sortLink with
    | nil => exact absurd (link ▸ ticks.linked) not_mem_nil
    | cons first rest =>
      cases scanned : swtmrs.scanNext config currTime with
      | none =>
        refine ⟨[], swtmrs, 0, ?_, ticks, ?_, rfl⟩
        · rw [Swtmrs.osSwtmrScan, link, scanned]
        · rw [Swtmrs.scanNext, link] at scanned
          rw [ite_eq_right_iff] at scanned
          have late : ¬swtmrs.time first ≤ currTime.toNat := fun due => nomatch scanned due
          exact (Nat.lt_of_not_le late).trans_le
            (ticks.sorted.firstEarliest first (by rw [link]; rfl) node ticks.linked)
      | some next =>
        obtain ⟨expires, due⟩ := expires_of_scanNext ticks.sorted ticks.once link scanned
        have fewer := expires.sum_expiries due fits link ticks.once
        obtain ⟨expired, after, more, scans, finally_, late, times⟩ :=
          hypothesis (ticks.expire expires due fits) (expires.fits fits) (by omega)
        have expand : Swtmrs.osSwtmrScan config currTime (turns + 1) swtmrs =
            some ((first, (swtmrs.cbArray first).responseTime) :: expired, after) := by
          rw [Swtmrs.osSwtmrScan, link, scanned]
          dsimp only
          rw [scans, expires.recorded]
          rfl
        by_cases same : first = node
        · rw [if_pos same] at finally_ times
          refine ⟨_, after, more + 1, expand, ?_, late, ?_⟩
          · rwa [Nat.add_assoc, Nat.add_comm 1] at finally_
          · subst same
            rw [timesOf, filter_cons_of_pos (by simp)]
            exact congrArg₂ _ ticks.due times
        · rw [if_neg same] at finally_ times
          refine ⟨_, after, more, expand, finally_, late, ?_⟩
          rw [timesOf, filter_cons_of_neg (by simpa using same)]
          exact times

end

/-- Nothing of a timer has changed, and the sort link is in order. -/
structure Elsewhere (before after : Swtmrs) (node : Nat) : Prop where
  block : after.cbArray node = before.cbArray node
  linked : node ∈ after.sortLink
  sorted : after.Sorted
  once : after.sortLink.Nodup

/-- A run of scans, however late, between which other timers may be started, stopped and deleted,
with the times at which a timer has expired. -/
inductive Run (config : Config) (node : Nat) (first : Swtmrs) : List Nat → Swtmrs → Prop
  | start : Run config node first [] first
  | elsewhere {times : List Nat} {before after : Swtmrs} : Run config node first times before →
      Elsewhere before after node → Run config node first times after
  | scan {times : List Nat} {before after : Swtmrs} {currTime : UInt64} {turns : Nat}
      {expired : List (Nat × UInt64)} : Run config node first times before →
      before.Fits config currTime →
      Swtmrs.osSwtmrScan config currTime turns before = some (expired, after) →
      Run config node first (times ++ timesOf node expired) after

section

variable {config : Config} {swtmrs first after : Swtmrs} {node start interval : Nat}
variable {times : List Nat}

theorem osSwtmrScan_more {currTime : UInt64} {turns : Nat} {expired : List (Nat × UInt64)}
    (scans : Swtmrs.osSwtmrScan config currTime turns swtmrs = some (expired, after))
    (further : Nat) :
    Swtmrs.osSwtmrScan config currTime (turns + further) swtmrs = some (expired, after) := by
  induction turns generalizing swtmrs expired with
  | zero => cases scans
  | succ turns hypothesis =>
    rw [Nat.add_right_comm, Swtmrs.osSwtmrScan]
    rw [Swtmrs.osSwtmrScan] at scans
    split
    · rename_i head rest next link scanned
      rw [link, scanned] at scans
      obtain ⟨⟨others, last⟩, scansOn, same⟩ := bind_eq_some_iff.mp scans
      obtain ⟨rfl, rfl⟩ := Prod.mk.inj (some_inj.mp same)
      rw [hypothesis scansOn]
      rfl
    · rename_i ended
      split at scans
      · rename_i link scanned
        exact absurd scanned (ended _ _ _ link)
      · exact scans

theorem Run.ticks (run : Run config node first times after)
    (ticks : Ticks config first node start interval 0) :
    Ticks config after node start interval times.length ∧
      times = (List.range' 1 times.length).map fun one => start + one * interval := by
  induction run with
  | start => exact ⟨ticks, rfl⟩
  | elsewhere _ elsewhere hypothesis =>
    obtain ⟨ticks, inOrder⟩ := hypothesis
    refine ⟨⟨elsewhere.sorted, elsewhere.once, elsewhere.linked, ?_, ?_, ?_⟩, inOrder⟩
    · rw [elsewhere.block]
      exact ticks.period
    · rw [Swtmrs.cycles, elsewhere.block]
      exact ticks.every
    · rw [Swtmrs.time, elsewhere.block]
      exact ticks.due
  | @scan times before after currTime turns expired _ fits scans hypothesis =>
    obtain ⟨ticks, inOrder⟩ := hypothesis
    obtain ⟨expired', after', more, scans', ticks', -, times'⟩ := ticks.scan fits (Nat.lt_succ_self _)
    have same := (osSwtmrScan_more scans' turns).symm.trans
      (Nat.add_comm turns _ ▸ osSwtmrScan_more scans _)
    obtain ⟨rfl, rfl⟩ := Prod.mk.inj (some_inj.mp same)
    have length : (times ++ timesOf node expired').length = times.length + more := by
      rw [length_append, times', length_map, length_range']
    refine ⟨length ▸ ticks', ?_⟩
    rw [length, ← List.range'_append_1, map_append, ← inOrder, times', Nat.add_comm 1]

end

namespace Swtmrs

variable (config : Config) (startTime : UInt64)

/-- A turn of the loop of `OsSwtmrResponseTimeReset`. -/
def resetNode (swtmrs : Swtmrs) (node : Nat) : Swtmrs :=
  ((swtmrs.osDeleteNodeSortLink node).modify node fun block =>
    { block with startTime := startTime }).osSwtmrStart config node

/-- The loop from a node on, in so many turns: it goes on behind the place where the node is linked
again. -/
def resetFrom : Nat → Option Nat → Swtmrs → Option Swtmrs
  | _, none, swtmrs => some swtmrs
  | 0, some _, _ => none
  | turns + 1, some node, swtmrs =>
    let next := swtmrs.resetNode config startTime node
    resetFrom turns (next.sortLink.dropWhile (· ≠ node)).tail.head? next

def osSwtmrResponseTimeReset (turns : Nat) (swtmrs : Swtmrs) : Option Swtmrs :=
  swtmrs.resetFrom config startTime turns swtmrs.sortLink.head?

def resetTime (swtmrs : Swtmrs) (node : Nat) : Nat :=
  (startTime + osSysTickToCycle config (swtmrs.cbArray node).uwInterval).toNat

/-- The same timers are linked in order, each one interval after the time. -/
structure Reset (before after : Swtmrs) : Prop where
  perm : after.sortLink.Perm before.sortLink
  times : ∀ node ∈ before.sortLink, after.time node = before.resetTime config startTime node
  sorted : after.Sorted

/-- The new time of each timer comes before the old times of those that are linked behind it, and no
three timers at the front of the link get the same least time. -/
structure InTurn (swtmrs : Swtmrs) : Prop where
  before : swtmrs.sortLink.Pairwise fun one other =>
    swtmrs.resetTime config startTime one < swtmrs.time other
  few : ∀ front back, swtmrs.sortLink = front ++ back → ∀ least,
    (∀ node ∈ front, least ≤ swtmrs.resetTime config startTime node) →
      front.countP (swtmrs.resetTime config startTime · = least) ≤ 2

end Swtmrs

section

variable {config : Config} {startTime : UInt64} {first swtmrs : Swtmrs} {node : Nat}
variable {front back done ahead rest : List Nat}

theorem resetNode_spec (link : swtmrs.sortLink = front ++ node :: back)
    (once : swtmrs.sortLink.Nodup) (sorted : swtmrs.Sorted) {next : Swtmrs}
    (resets : swtmrs.resetNode config startTime node = next) :
    next.Sorted ∧ (∀ other, other ≠ node → next.cbArray other = swtmrs.cbArray other) ∧
      (next.cbArray node).uwInterval = (swtmrs.cbArray node).uwInterval ∧
      next.time node = swtmrs.resetTime config startTime node ∧
      ∃ before after, front ++ back = before ++ after ∧
        next.sortLink = before ++ node :: after ∧
        (∀ one ∈ before, next.time one ≤ next.time node) ∧
          ((∀ one ∈ after, next.time node < next.time one) ∨
            TwoFirst next.time node (front ++ back)) := by
  have apart : node ∉ front ++ back := by
    rw [link] at once
    exact (nodup_cons.mp (nodup_middle.mp once)).1
  have erased : (swtmrs.osDeleteNodeSortLink node).sortLink = front ++ back := by
    rw [mem_append, not_or] at apart
    change swtmrs.sortLink.erase node = _
    rw [link, erase_append_right _ apart.1, erase_cons_head]
  have kept := sorted.delete once node
  have touches := @Swtmrs.osDeleteNodeSortLink_touches swtmrs node
  have block : ((swtmrs.osDeleteNodeSortLink node).cbArray node).uwInterval =
      (swtmrs.cbArray node).uwInterval := by
    simp [Swtmrs.osDeleteNodeSortLink, Swtmrs.modify]
  rw [Swtmrs.resetNode] at resets
  generalize swtmrs.osDeleteNodeSortLink node = removed at erased kept touches block resets
  have others : ∀ other, other ≠ node → next.cbArray other = swtmrs.cbArray other :=
    fun other different => resets ▸ (Swtmrs.osSwtmrStart_touches.others other different).trans
      ((update_of_ne different _ _).trans (touches.others other different))
  obtain ⟨self, -, -⟩ := @Swtmrs.osSwtmrStart_self config (removed.modify node fun block =>
    { block with startTime := startTime }) node
  rw [Swtmrs.modify_self, block, resets] at self
  have timed : ((removed.modify node fun block => { block with startTime := startTime }).modify node
      fun block => { block with ucState := .ticking }).Sorted :=
    kept.congr rfl fun one member => by
      have different := ne_of_mem_of_not_mem member (erased ▸ apart)
      exact (update_of_ne different _ _).trans (update_of_ne different _ _)
  obtain ⟨before, after, split, added, ordered, early, stable⟩ := @osAdd2SortLink_spec config _ node
    ((removed.modify node fun block => { block with startTime := startTime }).cbArray node).startTime
    ((removed.modify node fun block => { block with startTime := startTime }).cbArray node).uwInterval
    timed (erased ▸ apart)
  rw [← Swtmrs.osSwtmrStart, resets] at added early ordered stable
  refine ⟨ordered, others, by rw [self], by rw [Swtmrs.time, self, Swtmrs.resetTime], before, after,
    erased ▸ split, added, early, ?_⟩
  rw [← erased]
  exact (Classical.em _).imp_right fun late => not_not.mp fun two => late (stable.mpr two)

/-- The walk has come to a timer: those that it has passed, and will pass again, have their new
times, and those behind them their old ones. -/
structure Resetting (config : Config) (startTime : UInt64) (first swtmrs : Swtmrs)
    (done ahead rest : List Nat) : Prop where
  link : swtmrs.sortLink = done ++ ahead ++ rest
  once : swtmrs.sortLink.Nodup
  sorted : swtmrs.Sorted
  passed : ∃ front, first.sortLink = front ++ rest ∧ (done ++ ahead).Perm front
  times : ∀ one ∈ done ++ ahead, swtmrs.time one = first.resetTime config startTime one
  kept : ∀ one ∈ rest, swtmrs.time one = first.time one
  intervals : ∀ one, swtmrs.resetTime config startTime one = first.resetTime config startTime one

theorem cursor_eq (node : Nat) (out : node ∉ front) :
    ((front ++ node :: back).dropWhile (· ≠ node)).tail.head? = back.head? := by
  induction front with
  | nil => simp
  | cons one front hypothesis =>
    rw [mem_cons, not_or] at out
    rw [cons_append, dropWhile_cons_of_pos (by simpa using Ne.symm out.1)]
    exact hypothesis out.2

section

variable (inTurn : first.InTurn config startTime) {passed : List Nat}
include inTurn

theorem not_twoFirst {time : Nat → Nat} (is : first.sortLink = passed ++ rest)
    (perm : (node :: ahead).Perm passed)
    (times : ∀ one ∈ node :: ahead, time one = first.resetTime config startTime one)
    (behind : ∀ one ∈ rest, time node < time one)
    (sorted : ahead.Pairwise fun one other => time one ≤ time other) :
    ¬TwoFirst time node (ahead ++ rest) := by
  intro two
  match ahead, perm, times, sorted with
  | [], _, _, _ =>
    match rest, behind, two with
    | _ :: _ :: _, behind, two => exact (behind _ mem_cons_self).ne' two.1
  | [_], _, _, _ =>
    match rest, behind, two with
    | _ :: _, behind, two => exact (behind _ mem_cons_self).ne' two.2
  | one :: other :: more, perm, times, sorted =>
    have least := (pairwise_cons.mp sorted).1
    rw [two.1] at least
    have few := inTurn.few passed rest is (time node) fun later member => by
      have member := perm.mem_iff.mpr member
      rw [← times later member]
      rcases mem_cons.mp member with rfl | member
      · exact le_rfl
      · rcases mem_cons.mp member with rfl | member
        · exact two.1.ge
        · exact least later member
    rw [← perm.countP_eq, countP_cons_of_pos, countP_cons_of_pos,
      countP_cons_of_pos] at few
    · omega
    all_goals
      rw [← times _ (by simp)]
      simp [two.1, two.2]

theorem Resetting.step (link : swtmrs.sortLink = done ++ node :: (ahead ++ rest))
    (once : swtmrs.sortLink.Nodup) (sorted : swtmrs.Sorted)
    (is : first.sortLink = passed ++ rest) (perm : (node :: (done ++ ahead)).Perm passed)
    (times : ∀ one ∈ done ++ ahead, swtmrs.time one = first.resetTime config startTime one)
    (kept : ∀ one ∈ rest, swtmrs.time one = first.time one)
    (intervals : ∀ one, swtmrs.resetTime config startTime one =
      first.resetTime config startTime one) :
    ∃ before after, done ++ ahead = before ++ after ∧ node ∉ before ∧
      Resetting config startTime first (swtmrs.resetNode config startTime node) (before ++ [node])
        after rest ∧
      ((∀ one ∈ done, swtmrs.time one ≤ swtmrs.resetTime config startTime node) →
        after.length ≤ ahead.length) := by
  obtain ⟨next, resets⟩ : ∃ next, swtmrs.resetNode config startTime node = next := ⟨_, rfl⟩
  obtain ⟨ordered, others, interval, time, before, after, split, linked, early, late⟩ :=
    resetNode_spec link once sorted resets
  rw [resets, intervals]
  rw [intervals] at time
  have sorted_ : (done ++ (ahead ++ rest)).Pairwise fun one other =>
      swtmrs.time one ≤ swtmrs.time other := by
    rw [Swtmrs.Sorted, link] at sorted
    exact sorted.sublist (sublist_cons_self _ _ |>.append_left _)
  rw [link, nodup_middle, nodup_cons, ← append_assoc] at once
  rw [← append_assoc] at split late sorted_
  obtain ⟨out, once⟩ := once
  have same : ∀ one ∈ done ++ ahead ++ rest, next.time one = swtmrs.time one :=
    fun one member => by
      rw [Swtmrs.time, others one (ne_of_mem_of_not_mem member out)]
      rfl
  have behind : ∀ one ∈ rest, next.time node < next.time one := fun one member => by
    have order := inTurn.before
    rw [is, pairwise_append] at order
    rw [time, same one (mem_append_right _ member), kept one member]
    exact order.2.2 node (perm.mem_iff.mp mem_cons_self) one member
  have newTimes : ∀ one ∈ node :: (done ++ ahead),
      next.time one = first.resetTime config startTime one := fun one member => by
    rcases mem_cons.mp member with rfl | member
    · exact time
    · exact (same one (mem_append_left _ member)).trans (times one member)
  replace late := late.resolve_right <| not_twoFirst inTurn is perm newTimes behind <|
    (pairwise_append.mp sorted_).1.imp_of_mem fun one other order => by
      rw [same _ (mem_append_left _ one), same _ (mem_append_left _ other)]
      exact order
  obtain ⟨middle, parts, rfl⟩ : ∃ middle, done ++ ahead = before ++ middle ∧
      after = middle ++ rest := by
    rcases append_eq_append_iff.mp split with ⟨more, parts, is⟩ | both
    · have none_ : more = [] := eq_nil_iff_forall_not_mem.mpr fun one member =>
        (behind one (is ▸ mem_append_left _ member)).not_ge
          (early one (parts ▸ mem_append_right _ member))
      subst none_
      exact ⟨[], by rw [parts]; simp, is.symm⟩
    · exact both
  have arranged : ((before ++ [node]) ++ middle).Perm (node :: (done ++ ahead)) := by
    rw [parts, append_assoc]
    exact perm_middle
  refine ⟨before, middle, parts, fun member => out ?_, ⟨?_, ?_, ordered,
    ⟨passed, is, arranged.trans perm⟩, fun one member => newTimes one (arranged.mem_iff.mp member),
    fun one member => ?_, fun one => ?_⟩, fun low => ?_⟩
  · rw [parts]
    simp [member]
  · simp [linked]
  · rw [linked, nodup_middle, nodup_cons, ← append_assoc, ← parts]
    exact ⟨out, once⟩
  · exact (same one (mem_append_right _ member)).trans (kept one member)
  · rw [← intervals, Swtmrs.resetTime, Swtmrs.resetTime]
    by_cases here : one = node
    · rw [here, interval]
    · rw [others one here]
  · rcases append_eq_append_iff.mp parts with ⟨more, -, rfl⟩ | ⟨more, is, rfl⟩
    · simp
    · have none_ : more = [] := eq_nil_iff_forall_not_mem.mpr fun one member => by
        have inDone : one ∈ done := is ▸ mem_append_right _ member
        refine (late one (by simp [member])).not_ge ?_
        rw [time, same one (by simp [inDone])]
        exact low one inDone
      simp [none_]

theorem Resetting.run {swtmrs : Swtmrs} {done ahead rest : List Nat}
    (resetting : Resetting config startTime first swtmrs done ahead rest) :
    ∃ turns after, swtmrs.resetFrom config startTime turns (ahead ++ rest).head? = some after ∧
      first.Reset config startTime after := by
  obtain ⟨front, is, perm⟩ := resetting.passed
  have onward {node : Nat} {behind : List Nat} {before after : List Nat} (out : node ∉ before)
      (link : (swtmrs.resetNode config startTime node).sortLink = before ++ [node] ++ after ++ behind)
      (runs : ∃ turns last, (swtmrs.resetNode config startTime node).resetFrom config startTime turns
        (after ++ behind).head? = some last ∧ first.Reset config startTime last) :
      ∃ turns last, swtmrs.resetFrom config startTime turns (some node) = some last ∧
        first.Reset config startTime last := by
    obtain ⟨turns, last, run, reset⟩ := runs
    refine ⟨turns + 1, last, ?_, reset⟩
    rw [Swtmrs.resetFrom, link, append_assoc, append_assoc, singleton_append,
      cursor_eq node out]
    exact run
  match ahead, rest, resetting with
  | [], [], resetting =>
    refine ⟨0, swtmrs, rfl, ?_, fun node member => ?_, resetting.sorted⟩
    · simpa [resetting.link, is] using perm
    · rw [is, append_nil] at member
      exact resetting.times node (perm.mem_iff.mpr member)
  | node :: ahead, rest, resetting =>
    have link := resetting.link
    rw [append_assoc] at link
    have sorted := resetting.sorted
    rw [Swtmrs.Sorted, link, pairwise_append] at sorted
    obtain ⟨before, after, -, out, next, fewer⟩ := Resetting.step inTurn link resetting.once
      resetting.sorted is (perm_middle.symm.trans perm)
      (fun one member => resetting.times one (by simp at member ⊢; tauto)) resetting.kept
      resetting.intervals
    have fewer := fewer fun one member => by
      rw [resetting.intervals, ← resetting.times node (by simp)]
      exact sorted.2.2 one member node mem_cons_self
    exact onward out next.link next.run
  | [], node :: rest, resetting =>
    have link := resetting.link
    rw [append_nil] at link
    obtain ⟨before, after, -, out, next, -⟩ := @Resetting.step _ _ _ _ _ done [] rest inTurn
      (front ++ [node]) link resetting.once resetting.sorted (by rw [is]; simp)
      (by simpa using (perm.cons node).trans (perm_append_singleton _ _).symm)
      (by simpa using resetting.times) (fun one member => resetting.kept one (by simp [member]))
      resetting.intervals
    exact onward out next.link next.run
termination_by (rest.length, ahead.length)
decreasing_by
  all_goals simp_wf; omega

end

/-- `OsSwtmrResponseTimeReset` ends with all timers in the order of their new times, if it can take
them in turn. -/
theorem reset_of_inTurn (config : Config) (startTime : UInt64) (sorted : swtmrs.Sorted)
    (once : swtmrs.sortLink.Nodup) (inTurn : swtmrs.InTurn config startTime) :
    ∃ turns after, swtmrs.osSwtmrResponseTimeReset config startTime turns = some after ∧
      swtmrs.Reset config startTime after :=
  @Resetting.run config startTime swtmrs inTurn swtmrs [] [] swtmrs.sortLink
    ⟨rfl, once, sorted, ⟨[], rfl, .rfl⟩, nofun, fun _ _ => rfl, fun _ => rfl⟩

end

theorem reset_of_inTurn_sample :
    ∃ turns after, (lined [(500, 1), (2000, 2)]).osSwtmrResponseTimeReset twoTimers 3 turns =
      some after ∧ (lined [(500, 1), (2000, 2)]).Reset twoTimers 3 after := by
  refine reset_of_inTurn _ _ (by rw [Swtmrs.Sorted]; decide) (by decide) ⟨by decide, ?_⟩
  intro front back is least _
  refine List.countP_le_length.trans ?_
  have length : 2 = _ := congrArg List.length is
  rw [List.length_append] at length
  omega

/-- A timer that goes to the end of the link is the last one that is set: the second one is passed
over. -/
theorem reset_passes_over : ¬∃ turns after,
    (lined [(5, 1), (9, 1)]).osSwtmrResponseTimeReset twoTimers 10 turns = some after ∧
      (lined [(5, 1), (9, 1)]).Reset twoTimers 10 after := by
  rintro ⟨turns, after, run, reset⟩
  have new := reset.times 1 (by decide)
  match turns, run with
  | turns + 1, run =>
    have ended : Swtmrs.resetFrom twoTimers 10 turns none
        ((lined [(5, 1), (9, 1)]).resetNode twoTimers 10 0) = some after := run
    have last : after = (lined [(5, 1), (9, 1)]).resetNode twoTimers 10 0 := by
      cases turns <;> exact (Option.some_inj.mp ended).symm
    rw [last] at new
    exact absurd new (by decide)

end TowerSafe.Swtmr
