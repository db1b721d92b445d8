/-
This file embeds the paging of the system capabilities: `ProcGetAllSysCap` in the server, which
replies to a start index with some names and the next start index, and the loop of
`SAMGR_GetSystemCapabilities` in the client. It says exactly for which tables and start indexes the
client gets every registered capability once, in the order of the table, and the loop ends.

The serializer of the IPC library is not in the repository: the values of a reply are popped in the
order in which they were pushed.
-/

import Mathlib.Data.List.Basic
import Mathlib.Data.List.TakeDrop

namespace TowerSafe.SysCap

open List Option

/-! ### Pages of a list -/

section Pages

variable {Entry : Type} {wanted : Entry → Bool}

/-- What is left of a list after a number of wanted entries. -/
def afterPage (wanted : Entry → Bool) : Nat → List Entry → List Entry
  | 0, entries => entries
  | _ + 1, [] => []
  | budget + 1, entry :: rest =>
      if wanted entry then afterPage wanted budget rest
      else afterPage wanted (budget + 1) rest

theorem filter_afterPage (budget : Nat) (entries : List Entry) :
    (afterPage wanted budget entries).filter wanted = (entries.filter wanted).drop budget := by
  fun_induction afterPage wanted budget entries with
  | case1 entries => rfl
  | case2 budget => rfl
  | case3 budget entry rest taken hypothesis =>
    rw [hypothesis, filter_cons_of_pos taken]
    rfl
  | case4 budget entry rest skipped hypothesis =>
    rw [hypothesis, filter_cons_of_neg skipped]

theorem afterPage_suffix (budget : Nat) (entries : List Entry) :
    afterPage wanted budget entries <:+ entries := by
  fun_induction afterPage wanted budget entries with
  | case1 entries => exact suffix_refl _
  | case2 budget => exact suffix_refl _
  | case3 budget entry rest taken hypothesis =>
    exact hypothesis.trans (suffix_cons _ _)
  | case4 budget entry rest skipped hypothesis =>
    exact hypothesis.trans (suffix_cons _ _)

theorem length_afterPage_lt {budget : Nat} (room : 0 < budget) {entries : List Entry}
    (more : entries ≠ []) : (afterPage wanted budget entries).length < entries.length := by
  cases entries with
  | nil => exact absurd rfl more
  | cons entry rest =>
    obtain ⟨budget, rfl⟩ := Nat.exists_eq_succ_of_ne_zero (Nat.ne_of_gt room)
    rw [afterPage]
    split <;> exact Nat.lt_succ_of_le (afterPage_suffix _ _).length_le

end Pages

/-! ### The table -/

/-- A name, without the zero at its end. -/
abbrev Name := List Char

structure SysCapImpl where
  name : Name
  isRegister : Bool
  deriving DecidableEq

def maxSyscapNum : Nat := 512

def maxSyscapNameLen : Nat := 64

def maxSyscapNumPerReply : Nat := 118

/-- The capabilities of the server, as `ParseSysCap` makes them: no more than the limit, their names
fit with their zero, and no two have the same name. -/
structure SysCapTable where
  sysCapabilitys : List SysCapImpl
  limit : sysCapabilitys.length ≤ maxSyscapNum
  fits : ∀ impl ∈ sysCapabilitys, impl.name.length ≤ maxSyscapNameLen
  distinct : (sysCapabilitys.map SysCapImpl.name).Nodup

namespace SysCapTable

/-- `VECTOR_Num`: nothing is ever taken out of the table. -/
def vectorNum (table : SysCapTable) : Int := table.sysCapabilitys.length

/-- `VECTOR_At`. The index is an `int16`. -/
def vectorAt (table : SysCapTable) (index : Int) : Option SysCapImpl :=
  let index := (BitVec.ofInt 16 index).toInt
  if table.vectorNum ≤ index ∨ index < 0 then none else table.sysCapabilitys[index.toNat]?

/-- The capabilities a client should get. -/
def registered (table : SysCapTable) : List Name :=
  (table.sysCapabilitys.filter SysCapImpl.isRegister).map SysCapImpl.name

/-! ### The server -/

/-- The loop of `GetReplyNumAndNextReqIdx`; none when it follows a null pointer. The count bounds
the indexes that are left. -/
def getReplyNumLoop (table : SysCapTable) : Nat → Int → Nat → Option (Nat × Int)
  | 0, index, registerNum => some (registerNum, index)
  | count + 1, index, registerNum =>
      if index < table.vectorNum ∧ registerNum < maxSyscapNumPerReply then
        match table.vectorAt index with
        | none => none
        | some serviceImpl =>
            if serviceImpl.isRegister = false then
              getReplyNumLoop table count (index + 1) registerNum
            else getReplyNumLoop table count (index + 1) (registerNum + 1)
      else some (registerNum, index)

/-- `GetReplyNumAndNextReqIdx`: the number of names and the next index. -/
def getReplyNumAndNextReqIdx (table : SysCapTable) (startIdx : Int) : Option (Nat × Int) :=
  table.getReplyNumLoop (table.vectorNum - startIdx).toNat startIdx 0

/-- The loop of `ProcGetAllSysCap` that pushes the names. -/
def pushNames (table : SysCapTable) (replyNum : Nat) : Nat → Int → Nat → Option (List Name)
  | 0, _, _ => some []
  | count + 1, index, cnt =>
      if index < table.vectorNum ∧ cnt < replyNum then
        match table.vectorAt index with
        | none => none
        | some serviceImpl =>
            if serviceImpl.isRegister = false then pushNames table replyNum count (index + 1) cnt
            else
              (pushNames table replyNum count (index + 1) (cnt + 1)).map (serviceImpl.name :: ·)
      else some []

/-- What is pushed into a reply, in this order. -/
structure Reply where
  isLast : Bool
  nextRequestIdx : BitVec 32
  replyNum : BitVec 32
  sysCaps : List Name
  deriving DecidableEq

/-- `ProcGetAllSysCap`; none when it follows a null pointer. -/
def procGetAllSysCap (table : SysCapTable) (startIdx : BitVec 32) : Option Reply :=
  match table.getReplyNumAndNextReqIdx startIdx.toInt with
  | none => none
  | some (replyNum, nextRequestIdx) =>
      (table.pushNames replyNum (table.vectorNum - startIdx.toInt).toNat startIdx.toInt 0).map
        fun sysCaps => ⟨nextRequestIdx = table.vectorNum, .ofInt 32 nextRequestIdx,
          .ofNat 32 replyNum, sysCaps⟩

end SysCapTable

/-! ### The client -/

/-- `strcpy_s` of a popped name into a row of the array: whether it is kept. -/
def keeps (sysCap : Name) : Bool :=
  sysCap.length ≠ 0 && sysCap.length < maxSyscapNameLen

/-- The loop of `ParseGetAllSysCapsReply` over the popped names, the rows in use before them; none
when it writes past the array. -/
def copyNames (sysCaps : List Name) : List Name → Option (List Name)
  | [] => some sysCaps
  | sysCap :: rest =>
      if sysCap.length = 0 then copyNames sysCaps rest
      else if maxSyscapNum ≤ sysCaps.length then none
      else copyNames (if keeps sysCap then sysCaps ++ [sysCap] else sysCaps) rest

/-- `ParseGetAllSysCapsReply`: as many names are popped as the reply says, no more than the array
has rows, and those that are missing are not there. -/
def parseGetAllSysCapsReply (reply : SysCapTable.Reply) (sysCaps : List Name) :
    Option (List Name) :=
  let size := if reply.replyNum.toNat > maxSyscapNum then maxSyscapNum else reply.replyNum.toNat
  copyNames sysCaps (reply.sysCaps.take size)

/-- The loop of `SAMGR_GetSystemCapabilities` from a start index on, for a number of turns; none
when the server follows a null pointer, when the array is passed and when the loop has not ended. -/
def getSystemCapabilities (table : SysCapTable) :
    Nat → BitVec 32 → List Name → Option (List Name)
  | 0, _, _ => none
  | turns + 1, startIdx, sysCaps =>
      match table.procGetAllSysCap startIdx with
      | none => none
      | some reply =>
          match parseGetAllSysCapsReply reply sysCaps with
          | none => none
          | some sysCaps =>
              if reply.isLast then some sysCaps
              else getSystemCapabilities table turns reply.nextRequestIdx sysCaps

/-! ### Indexes in the table -/

namespace SysCapTable

variable {table : SysCapTable} {index : Nat}

theorem vectorAt_natCast (inside : index < table.sysCapabilitys.length) :
    table.vectorAt index = some table.sysCapabilitys[index] := by
  have limit := table.limit
  unfold maxSyscapNum at limit
  have small : (BitVec.ofInt 16 (index : Int)).toInt = index := by
    rw [BitVec.toInt_ofInt, Int.bmod_eq_of_le (by omega) (by omega)]
  rw [vectorAt, small, if_neg (by unfold vectorNum; omega), Int.toNat_natCast,
    List.getElem?_eq_getElem inside]

theorem vectorAt_neg_one : table.vectorAt (-1) = none := by
  exact if_pos (.inr (by decide))

/-- Where a page ends, as an index. -/
def nextIndex (table : SysCapTable) (budget : Nat) (rest : List SysCapImpl) : Nat :=
  table.sysCapabilitys.length - (afterPage SysCapImpl.isRegister budget rest).length

variable {rest : List SysCapImpl}

theorem length_of_drop (from_ : table.sysCapabilitys.drop index = rest) :
    rest.length = table.sysCapabilitys.length - index := by
  rw [← from_, length_drop]

theorem vectorAt_of_drop {impl : SysCapImpl}
    (from_ : table.sysCapabilitys.drop index = impl :: rest) :
    (index : Int) < table.vectorNum ∧ table.vectorAt index = some impl ∧
      table.sysCapabilitys.drop (index + 1) = rest := by
  have inside : index < table.sysCapabilitys.length := by
    have length := length_of_drop from_
    rw [length_cons] at length
    omega
  rw [drop_eq_getElem_cons inside, List.cons.injEq] at from_
  exact ⟨Int.ofNat_lt.mpr inside, by rw [vectorAt_natCast inside, from_.1], from_.2⟩

theorem getReplyNumLoop_natCast (registerNum : Nat) (from_ : table.sysCapabilitys.drop index = rest)
    (inside : index ≤ table.sysCapabilitys.length) :
    table.getReplyNumLoop rest.length index registerNum =
      some (registerNum + ((rest.filter SysCapImpl.isRegister).take
          (maxSyscapNumPerReply - registerNum)).length,
        (table.nextIndex (maxSyscapNumPerReply - registerNum) rest : Int)) := by
  induction rest generalizing index registerNum with
  | nil =>
    have last : index = table.sysCapabilitys.length :=
      Nat.le_antisymm inside (drop_eq_nil_iff.mp from_)
    rw [length_nil, getReplyNumLoop, last, nextIndex]
    cases maxSyscapNumPerReply - registerNum <;> simp [afterPage]
  | cons impl rest hypothesis =>
    have length := length_of_drop from_
    obtain ⟨below, found, next⟩ := vectorAt_of_drop from_
    have nextInside : index + 1 ≤ table.sysCapabilitys.length := by
      rw [length_cons] at length
      omega
    rw [length_cons, getReplyNumLoop]
    by_cases room : registerNum < maxSyscapNumPerReply
    · obtain ⟨budget, budgetEq⟩ :=
        Nat.exists_eq_succ_of_ne_zero (Nat.ne_of_gt (Nat.sub_pos_of_lt room))
      have nextBudget : maxSyscapNumPerReply - (registerNum + 1) = budget := by omega
      rw [if_pos ⟨below, room⟩, found]
      dsimp only
      by_cases taken : impl.isRegister
      · rw [if_neg (by simp [taken]), ← Int.natCast_succ,
          hypothesis (registerNum + 1) next nextInside, nextBudget, budgetEq,
          filter_cons_of_pos taken, take_succ_cons, length_cons, nextIndex,
          nextIndex, afterPage, if_pos taken, Nat.add_right_comm, Nat.add_assoc registerNum]
      · rw [if_pos (by simpa using taken), ← Int.natCast_succ,
          hypothesis registerNum next nextInside, budgetEq,
          filter_cons_of_neg taken, nextIndex, nextIndex, afterPage, if_neg taken]
    · have noBudget : maxSyscapNumPerReply - registerNum = 0 := by omega
      rw [if_neg fun both => room both.2, noBudget, nextIndex, afterPage]
      congr 3
      omega

theorem pushNames_natCast {replyNum : Nat} (cnt : Nat)
    (from_ : table.sysCapabilitys.drop index = rest) :
    table.pushNames replyNum rest.length index cnt =
      some (((rest.filter SysCapImpl.isRegister).take (replyNum - cnt)).map SysCapImpl.name) := by
  induction rest generalizing index cnt with
  | nil => simp [pushNames]
  | cons impl rest hypothesis =>
    obtain ⟨below, found, next⟩ := vectorAt_of_drop from_
    rw [length_cons, pushNames]
    by_cases room : cnt < replyNum
    · obtain ⟨budget, budgetEq⟩ :=
        Nat.exists_eq_succ_of_ne_zero (Nat.ne_of_gt (Nat.sub_pos_of_lt room))
      have nextBudget : replyNum - (cnt + 1) = budget := by omega
      rw [if_pos ⟨below, room⟩, found]
      dsimp only
      by_cases taken : impl.isRegister
      · rw [if_neg (by simp [taken]), ← Int.natCast_succ, hypothesis (cnt + 1) next,
          nextBudget, budgetEq, filter_cons_of_pos taken, take_succ_cons, map_cons,
          map_some]
      · rw [if_pos (by simpa using taken), ← Int.natCast_succ, hypothesis cnt next,
          filter_cons_of_neg taken]
    · have noBudget : replyNum - cnt = 0 := by omega
      rw [if_neg fun both => room both.2, noBudget, take_zero, map_nil]

/-- The page that a reply at an index of the table holds. -/
def page (rest : List SysCapImpl) : List Name :=
  ((rest.filter SysCapImpl.isRegister).take maxSyscapNumPerReply).map SysCapImpl.name

theorem nextIndex_eq_length {budget : Nat} (from_ : table.sysCapabilitys.drop index = rest) :
    table.nextIndex budget rest = table.sysCapabilitys.length ↔
      afterPage SysCapImpl.isRegister budget rest = [] := by
  have length := length_of_drop from_
  have shorter := (@afterPage_suffix _ SysCapImpl.isRegister budget rest).length_le
  rw [nextIndex, ← length_eq_zero_iff]
  omega

theorem drop_nextIndex {budget : Nat} (from_ : table.sysCapabilitys.drop index = rest) :
    table.sysCapabilitys.drop (table.nextIndex budget rest) =
      afterPage SysCapImpl.isRegister budget rest := by
  have suffix := (@afterPage_suffix _ SysCapImpl.isRegister budget rest).trans
    (from_ ▸ drop_suffix index table.sysCapabilitys)
  exact (suffix_iff_eq_drop.mp suffix).symm

theorem nextIndex_le (budget : Nat) (rest : List SysCapImpl) :
    table.nextIndex budget rest ≤ table.sysCapabilitys.length :=
  Nat.sub_le _ _

theorem toInt_startIdx {startIdx : BitVec 32}
    (inside : startIdx.toNat ≤ table.sysCapabilitys.length) : startIdx.toInt = startIdx.toNat := by
  have limit := table.limit
  unfold maxSyscapNum at limit
  rw [BitVec.toInt_eq_toNat_of_lt (by omega)]

theorem procGetAllSysCap_of_le {startIdx : BitVec 32}
    (from_ : table.sysCapabilitys.drop startIdx.toNat = rest)
    (inside : startIdx.toNat ≤ table.sysCapabilitys.length) : table.procGetAllSysCap startIdx =
      some ⟨afterPage SysCapImpl.isRegister maxSyscapNumPerReply rest = [],
        .ofNat 32 (table.nextIndex maxSyscapNumPerReply rest), .ofNat 32 (page rest).length,
        page rest⟩ := by
  have count : (table.vectorNum - startIdx.toNat).toNat = rest.length := by
    rw [length_of_drop from_, vectorNum]
    omega
  have names : page rest = ((rest.filter SysCapImpl.isRegister).take
      ((rest.filter SysCapImpl.isRegister).take maxSyscapNumPerReply).length).map
        SysCapImpl.name := by
    rw [page, length_take, ← take_eq_take_min]
  unfold procGetAllSysCap getReplyNumAndNextReqIdx
  rw [toInt_startIdx inside, count, getReplyNumLoop_natCast 0 from_ inside, Nat.sub_zero,
    Nat.zero_add]
  dsimp only
  rw [pushNames_natCast 0 from_, Nat.sub_zero, ← names, map_some, BitVec.ofInt_natCast,
    vectorNum]
  simp only [Int.natCast_inj, nextIndex_eq_length from_]
  rw [page, length_map]

end SysCapTable

/-! ### The loop of the client -/

section Client

variable {table : SysCapTable}

theorem copyNames_eq (sysCaps names : List Name)
    (room : sysCaps.length + names.length ≤ maxSyscapNum) :
    copyNames sysCaps names = some (sysCaps ++ names.filter keeps) := by
  induction names generalizing sysCaps with
  | nil => simp [copyNames]
  | cons sysCap rest hypothesis =>
    rw [length_cons] at room
    rw [copyNames]
    by_cases empty : sysCap.length = 0
    · have dropped : ¬keeps sysCap := by simp [keeps, empty]
      rw [if_pos empty, hypothesis sysCaps (by omega), filter_cons_of_neg dropped]
    rw [if_neg empty, if_neg (by omega)]
    by_cases kept : keeps sysCap
    · rw [if_pos kept, hypothesis _ (by simp; omega),
        filter_cons_of_pos kept, append_assoc, singleton_append]
    · rw [if_neg kept, hypothesis sysCaps (by omega), filter_cons_of_neg kept]

def namesLeft (rest : List SysCapImpl) : List Name :=
  (rest.filter SysCapImpl.isRegister).map SysCapImpl.name

theorem page_append_namesLeft (rest : List SysCapImpl) : SysCapTable.page rest ++
      namesLeft (afterPage SysCapImpl.isRegister maxSyscapNumPerReply rest) = namesLeft rest := by
  rw [SysCapTable.page, namesLeft, namesLeft, filter_afterPage, ← map_append,
    take_append_drop]

theorem length_page_le (rest : List SysCapImpl) :
    (SysCapTable.page rest).length ≤ maxSyscapNumPerReply := by
  rw [SysCapTable.page, length_map]
  exact length_take_le _ _

theorem getSystemCapabilities_succ (turns : Nat) {startIdx : BitVec 32} {rest : List SysCapImpl}
    {sysCaps : List Name} (from_ : table.sysCapabilitys.drop startIdx.toNat = rest)
    (inside : startIdx.toNat ≤ table.sysCapabilitys.length)
    (room : sysCaps.length + (namesLeft rest).length ≤ maxSyscapNum) :
    getSystemCapabilities table (turns + 1) startIdx sysCaps =
      if afterPage SysCapImpl.isRegister maxSyscapNumPerReply rest = [] then
        some (sysCaps ++ (SysCapTable.page rest).filter keeps) else
        getSystemCapabilities table turns (.ofNat 32 (table.nextIndex maxSyscapNumPerReply rest))
          (sysCaps ++ (SysCapTable.page rest).filter keeps) := by
  have small := length_page_le rest
  have parts := congrArg List.length (page_append_namesLeft rest)
  rw [length_append] at parts
  have size : (BitVec.ofNat 32 (SysCapTable.page rest).length).toNat =
      (SysCapTable.page rest).length := by
    unfold maxSyscapNumPerReply at small
    rw [BitVec.toNat_ofNat, Nat.mod_eq_of_lt (by omega)]
  have parsed (isLast : Bool) (nextRequestIdx : BitVec 32) :
      parseGetAllSysCapsReply ⟨isLast, nextRequestIdx,
        .ofNat 32 (SysCapTable.page rest).length, SysCapTable.page rest⟩ sysCaps =
          some (sysCaps ++ (SysCapTable.page rest).filter keeps) := by
    unfold parseGetAllSysCapsReply
    dsimp only
    rw [size, if_neg (by unfold maxSyscapNum; unfold maxSyscapNumPerReply at small; omega),
      take_length, copyNames_eq _ _ (by omega)]
  rw [getSystemCapabilities, SysCapTable.procGetAllSysCap_of_le from_ inside]
  dsimp only
  rw [parsed]
  simp only [decide_eq_true_eq]

variable {startIdx : BitVec 32} {rest : List SysCapImpl}

section

variable (from_ : table.sysCapabilitys.drop startIdx.toNat = rest)
include from_

theorem next_startIdx :
    let next := BitVec.ofNat 32 (table.nextIndex maxSyscapNumPerReply rest)
    table.sysCapabilitys.drop next.toNat =
        afterPage SysCapImpl.isRegister maxSyscapNumPerReply rest ∧
      next.toNat ≤ table.sysCapabilitys.length := by
  have limit := table.limit
  have below := @SysCapTable.nextIndex_le table maxSyscapNumPerReply rest
  unfold maxSyscapNum at limit
  have value : (BitVec.ofNat 32 (table.nextIndex maxSyscapNumPerReply rest)).toNat =
      table.nextIndex maxSyscapNumPerReply rest := by
    rw [BitVec.toNat_ofNat, Nat.mod_eq_of_lt (by omega)]
  dsimp only
  rw [value]
  exact ⟨SysCapTable.drop_nextIndex from_, below⟩

theorem eq_of_getSystemCapabilities {turns : Nat} {sysCaps result : List Name}
    (inside : startIdx.toNat ≤ table.sysCapabilitys.length)
    (room : sysCaps.length + (namesLeft rest).length ≤ maxSyscapNum)
    (got : getSystemCapabilities table turns startIdx sysCaps = some result) :
    result = sysCaps ++ (namesLeft rest).filter keeps := by
  induction turns generalizing startIdx rest sysCaps with
  | zero => exact absurd got (some_ne_none _).symm
  | succ turns hypothesis =>
    have parts := page_append_namesLeft rest
    rw [getSystemCapabilities_succ turns from_ inside room] at got
    split at got
    · next last =>
      rw [last] at parts
      rw [← parts, ← some_inj.mp got]
      simp [namesLeft]
    · obtain ⟨nextFrom, nextInside⟩ := next_startIdx from_
      have length := congrArg List.length parts
      have shorter := length_filter_le keeps (SysCapTable.page rest)
      rw [length_append] at length
      rw [hypothesis nextFrom nextInside (by rw [length_append]; omega) got,
        ← parts, filter_append, append_assoc]

theorem exists_getSystemCapabilities {turns : Nat} {sysCaps : List Name}
    (inside : startIdx.toNat ≤ table.sysCapabilitys.length)
    (room : sysCaps.length + (namesLeft rest).length ≤ maxSyscapNum)
    (enough : rest.length < turns) :
    ∃ result, getSystemCapabilities table turns startIdx sysCaps = some result := by
  induction turns generalizing startIdx rest sysCaps with
  | zero => exact absurd enough (Nat.not_lt_zero _)
  | succ turns hypothesis =>
    rw [getSystemCapabilities_succ turns from_ inside room]
    split
    · exact ⟨_, rfl⟩
    next more =>
    obtain ⟨nextFrom, nextInside⟩ := next_startIdx from_
    have length := congrArg List.length (page_append_namesLeft rest)
    have shorter := length_filter_le keeps (SysCapTable.page rest)
    rw [length_append] at length
    have left : rest ≠ [] := by
      rintro rfl
      exact more rfl
    have less := @length_afterPage_lt _ SysCapImpl.isRegister maxSyscapNumPerReply (by decide)
      _ left
    exact hypothesis nextFrom nextInside (by rw [length_append]; omega) (by omega)

end

/-! ### Start indexes past the table -/

theorem procGetAllSysCap_of_beyond (beyond : table.vectorNum < startIdx.toInt) :
    table.procGetAllSysCap startIdx = some ⟨false, startIdx, 0, []⟩ := by
  have count : (table.vectorNum - startIdx.toInt).toNat = 0 := by omega
  unfold SysCapTable.procGetAllSysCap SysCapTable.getReplyNumAndNextReqIdx
  rw [count, SysCapTable.getReplyNumLoop]
  dsimp only
  rw [BitVec.ofInt_toInt, decide_eq_false (Int.ne_of_gt beyond)]
  rfl

theorem getSystemCapabilities_of_beyond
    (beyond : table.vectorNum < startIdx.toInt) (turns : Nat) (sysCaps : List Name) :
    getSystemCapabilities table turns startIdx sysCaps = none := by
  induction turns generalizing sysCaps with
  | zero => rfl
  | succ turns hypothesis =>
    have parsed : parseGetAllSysCapsReply ⟨false, startIdx, 0, []⟩ sysCaps = some sysCaps := by
      simp [parseGetAllSysCapsReply, copyNames]
    rw [getSystemCapabilities, procGetAllSysCap_of_beyond beyond]
    dsimp only
    rw [parsed]
    dsimp only
    rw [if_neg Bool.false_ne_true, hypothesis]

theorem SysCapTable.getReplyNumLoop_neg {count registerNum replyNum : Nat} {index next : Int}
    (negative : index < 0)
    (scanned : table.getReplyNumLoop count index registerNum = some (replyNum, next)) :
    index ≤ next ∧ next < 0 := by
  induction count generalizing index registerNum with
  | zero =>
    rw [getReplyNumLoop, some_inj, Prod.mk.injEq] at scanned
    omega
  | succ count hypothesis =>
    rw [getReplyNumLoop] at scanned
    split at scanned
    · by_cases last : index = -1
      · rw [last, vectorAt_neg_one] at scanned
        exact absurd scanned (some_ne_none _).symm
      have nextNegative : index + 1 < 0 := by omega
      have bounds {registerNum : Nat}
          (scanned : table.getReplyNumLoop count (index + 1) registerNum =
            some (replyNum, next)) : index ≤ next ∧ next < 0 := by
        have later := hypothesis nextNegative scanned
        omega
      cases found : table.vectorAt index with
      | none =>
        rw [found] at scanned
        exact absurd scanned (some_ne_none _).symm
      | some impl =>
        rw [found] at scanned
        dsimp only at scanned
        split at scanned
        · exact bounds scanned
        · exact bounds scanned
    · rw [some_inj, Prod.mk.injEq] at scanned
      omega

theorem procGetAllSysCap_of_neg {reply : SysCapTable.Reply}
    (negative : startIdx.toInt < 0) (replied : table.procGetAllSysCap startIdx = some reply) :
    reply.isLast = false ∧ reply.nextRequestIdx.toInt < 0 := by
  unfold SysCapTable.procGetAllSysCap SysCapTable.getReplyNumAndNextReqIdx at replied
  cases scanned : table.getReplyNumLoop (table.vectorNum - startIdx.toInt).toNat
      startIdx.toInt 0 with
  | none =>
    rw [scanned] at replied
    exact absurd replied (some_ne_none _).symm
  | some found =>
    rw [scanned] at replied
    obtain ⟨later, nextNegative⟩ := SysCapTable.getReplyNumLoop_neg negative scanned
    obtain ⟨names, -, rfl⟩ := map_eq_some_iff.mp replied
    have lowest := BitVec.le_toInt startIdx
    have other : found.2 ≠ table.vectorNum := by
      unfold SysCapTable.vectorNum
      omega
    refine ⟨decide_eq_false other, ?_⟩
    rw [BitVec.toInt_ofInt, Int.bmod_eq_of_le (by omega) (by omega)]
    exact nextNegative

theorem getSystemCapabilities_of_neg (negative : startIdx.toInt < 0)
    (turns : Nat) (sysCaps : List Name) :
    getSystemCapabilities table turns startIdx sysCaps = none := by
  induction turns generalizing startIdx sysCaps with
  | zero => rfl
  | succ turns hypothesis =>
    rw [getSystemCapabilities]
    cases replied : table.procGetAllSysCap startIdx with
    | none => rfl
    | some reply =>
      obtain ⟨more, nextNegative⟩ := procGetAllSysCap_of_neg negative replied
      dsimp only
      cases parsed : parseGetAllSysCapsReply reply sysCaps with
      | none => rfl
      | some sysCaps =>
        dsimp only
        rw [more, if_neg Bool.false_ne_true, hypothesis nextNegative]

end Client

/-! ### The result -/

/-- The loop of the client ends with every registered capability once, in the order of the table and
without passing the array; and from the start index of any client the server follows no null
pointer and the loop ends. -/
def Pages (table : SysCapTable) (startIdx : BitVec 32) : Prop :=
  (∃ turns, getSystemCapabilities table turns 0 [] = some table.registered) ∧
    ∃ turns sysCaps, getSystemCapabilities table turns startIdx [] = some sysCaps

section Results

variable {table : SysCapTable}

theorem length_namesLeft_le (index : Nat) :
    ([] : List Name).length + (namesLeft (table.sysCapabilitys.drop index)).length ≤
      maxSyscapNum := by
  have limit := table.limit
  have fewer := length_filter_le SysCapImpl.isRegister (table.sysCapabilitys.drop index)
  have shorter := length_drop (i := index) (l := table.sysCapabilitys)
  rw [length_nil, namesLeft, length_map]
  omega

theorem getSystemCapabilities_zero :
    (∃ turns, getSystemCapabilities table turns 0 [] = some table.registered) ↔
      ∀ name ∈ table.registered, keeps name := by
  have from_ : table.sysCapabilitys.drop (0 : BitVec 32).toNat = table.sysCapabilitys := rfl
  have inside : (0 : BitVec 32).toNat ≤ table.sysCapabilitys.length := Nat.zero_le _
  have room := @length_namesLeft_le table 0
  rw [← filter_eq_self]
  constructor
  · rintro ⟨turns, got⟩
    exact (eq_of_getSystemCapabilities from_ inside room got).symm
  · intro kept
    obtain ⟨result, got⟩ := exists_getSystemCapabilities from_ inside room (Nat.lt_succ_self _)
    have value := eq_of_getSystemCapabilities from_ inside room got
    rw [namesLeft, ← SysCapTable.registered, kept] at value
    exact ⟨_, value ▸ got⟩

/-- The loop ends exactly from the start indexes up to the size of the table. -/
theorem exists_getSystemCapabilities_iff (startIdx : BitVec 32) :
    (∃ turns sysCaps, getSystemCapabilities table turns startIdx [] = some sysCaps) ↔
      startIdx.toNat ≤ table.sysCapabilitys.length := by
  constructor
  · rintro ⟨turns, sysCaps, got⟩
    by_contra beyond
    have endless : getSystemCapabilities table turns startIdx [] = none := by
      by_cases negative : startIdx.toInt < 0
      · exact getSystemCapabilities_of_neg negative turns []
      refine getSystemCapabilities_of_beyond ?_ turns []
      have value := BitVec.toInt_eq_toNat_cond startIdx
      unfold SysCapTable.vectorNum
      split at value <;> omega
    rw [endless] at got
    exact absurd got (some_ne_none _).symm
  · intro inside
    obtain ⟨result, got⟩ := exists_getSystemCapabilities rfl inside (length_namesLeft_le _)
      (Nat.lt_succ_self _)
    exact ⟨_, result, got⟩

/-- The paging works exactly when every registered name is not empty and fits with its zero into a
row of the array, and the start index is not past the table. -/
theorem pages_iff (startIdx : BitVec 32) : Pages table startIdx ↔
      (∀ name ∈ table.registered, 0 < name.length ∧ name.length < maxSyscapNameLen) ∧
        startIdx.toNat ≤ table.sysCapabilitys.length := by
  have kept (name : Name) : keeps name ↔ 0 < name.length ∧ name.length < maxSyscapNameLen := by
    simp [keeps, List.length_pos_iff]
  rw [Pages, getSystemCapabilities_zero, exists_getSystemCapabilities_iff]
  simp only [kept]

/-- A capability whose name fills the name of its entry. -/
def longNameTable : SysCapTable where
  sysCapabilitys := [⟨List.replicate 64 'a', true⟩]
  limit := by decide
  fits := by decide
  distinct := by simp

/-- That name is dropped by the client, and from the index after the end the loop never ends. -/
theorem longName_dropped : ¬Pages longNameTable 0 ∧ ¬Pages longNameTable 2 := by
  refine ⟨fun paged => ?_, fun paged => ?_⟩
  · have kept := getSystemCapabilities_zero.mp paged.1 (List.replicate 64 'a')
      (List.mem_singleton_self _)
    exact absurd kept (by decide)
  · exact absurd ((exists_getSystemCapabilities_iff 2).mp paged.2) (by decide)

end Results

end TowerSafe.SysCap
