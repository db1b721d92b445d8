/-
This file is a small library of buffers that are filled or extracted field by field: a cursor has
the buffer, the offset of the next field and the areas that were accessed. The rules say what a
sequence of fields leaves in the buffer, what it extracts from it, and that it stays inside of it.
-/

import TowerSafe.Library.Reading
import TowerSafe.Library.Fields

namespace TowerSafe.Library

/-- A buffer, the offset of the next field, and the areas of the buffer that were accessed. -/
structure Cursor where
  buf : Bytes
  offset : Nat
  accesses : List Area
  deriving DecidableEq

namespace Cursor

def start (buf : Bytes) : Cursor := ⟨buf, 0, []⟩

def Contained (cursor : Cursor) : Prop :=
  ∀ area ∈ cursor.accesses, area.Inside ⟨0, cursor.buf.length⟩

instance (cursor : Cursor) : Decidable cursor.Contained :=
  inferInstanceAs (Decidable (∀ area ∈ cursor.accesses, area.Inside ⟨0, cursor.buf.length⟩))

def access (cursor : Cursor) (area : Area) : Cursor :=
  { cursor with accesses := cursor.accesses ++ [area] }

theorem contained_start (buf : Bytes) : (start buf).Contained := fun _ no => by cases no

theorem Contained.access {cursor : Cursor} {area : Area} (contained : cursor.Contained)
    (inside : area.end_ ≤ cursor.buf.length) : (cursor.access area).Contained := by
  intro other member
  rcases List.mem_append.mp member with member | member
  · exact contained other member
  · rw [List.mem_singleton.mp member]
    exact ⟨Nat.zero_le _, inside.trans (Nat.le_add_left _ _)⟩

def Action (Error Value : Type) : Type := Cursor → Except Error Value × Cursor

variable {Error Value Next : Type}

/-- What follows an action that did not fail. -/
def andThen (next : Value → Action Error Next) :
    Except Error Value × Cursor → Except Error Next × Cursor
  | (.error error, after) => (.error error, after)
  | (.ok value, after) => next value after

instance : Monad (Action Error) where
  pure value := fun cursor => (.ok value, cursor)
  bind action next := fun cursor => andThen next (action cursor)

theorem bind_apply (action : Action Error Value) (next : Value → Action Error Next)
    (cursor : Cursor) : (action >>= next) cursor = andThen next (action cursor) := rfl

instance : LawfulMonad (Action Error) := .mk'
  _ (fun action => funext fun cursor => by
    change andThen _ (action cursor) = _
    obtain ⟨result, after⟩ := action cursor
    cases result <;> rfl)
  (fun _ _ => rfl)
  fun action next last => funext fun cursor => by
    rw [bind_apply, bind_apply, bind_apply]
    obtain ⟨result, after⟩ := action cursor
    cases result <;> rfl

def fail (error : Error) : Action Error Value := fun cursor => (.error error, cursor)

/-- Some bytes are copied to the offset, which goes on behind them. -/
def fill (source : Bytes) : Action Error Unit := fun cursor =>
  (.ok (), access ⟨cursor.buf.overwrite cursor.offset source, cursor.offset + source.length,
    cursor.accesses⟩ ⟨cursor.offset, source.length⟩)

/-- Some bytes are copied from the offset, which goes on behind them. -/
def extract (width : Nat) : Action Error Bytes := fun cursor =>
  (.ok (cursor.buf.slice cursor.offset width),
    access ⟨cursor.buf, cursor.offset + width, cursor.accesses⟩ ⟨cursor.offset, width⟩)

def fillNumber {bits : Nat} (width : Nat) (value : BitVec bits) : Action Error Unit :=
  fill (Bytes.ofNat width value.toNat)

def extractNumber (bits width : Nat) : Action Error (BitVec bits) := do
  let bytes ← extract width
  pure (.ofNat bits bytes.toNat)

/-! ### Filling -/

/-- An action fills in some bytes, if the buffer has room for them. -/
def Fills (action : Action Error Unit) (source : Bytes) : Prop :=
  ∀ cursor : Cursor, cursor.offset + source.length ≤ cursor.buf.length →
    ∃ accesses, action cursor = (.ok (), ⟨cursor.buf.overwrite cursor.offset source,
        cursor.offset + source.length, accesses⟩) ∧
      (cursor.Contained → ∀ area ∈ accesses, area.Inside ⟨0, cursor.buf.length⟩)

theorem fills_pure : Fills (pure () : Action Error Unit) [] := by
  intro cursor _
  refine ⟨cursor.accesses, ?_, id⟩
  rw [Bytes.overwrite_nil]
  rfl

theorem fills_fill (source : Bytes) : Fills (fill source : Action Error Unit) source :=
  fun _ room => ⟨_, rfl, fun contained => Contained.access contained room⟩

theorem fills_bind {action : Action Error Unit} {next : Unit → Action Error Unit}
    {first second : Bytes} (filled : Fills action first) (then_ : Fills (next ()) second) :
    Fills (action >>= next) (first ++ second) := by
  intro cursor room
  rw [List.length_append] at room
  obtain ⟨accesses, result, contained⟩ := filled cursor (by omega)
  have length : (cursor.buf.overwrite cursor.offset first).length = cursor.buf.length :=
    Bytes.length_overwrite (by omega)
  obtain ⟨later, last, within⟩ := then_ ⟨cursor.buf.overwrite cursor.offset first,
    cursor.offset + first.length, accesses⟩ (by dsimp only; omega)
  refine ⟨later, ?_, fun start => ?_⟩
  · rw [Bytes.overwrite_overwrite (by omega), Nat.add_assoc, ← List.length_append] at last
    rw [bind_apply, result]
    exact last
  · rw [length] at within
    exact within (by rw [Contained, length]; exact contained start)

/-! ### Extracting -/

/-- An action extracts a value from the bytes that start at an offset, if the buffer has them. It
leaves the buffer, and the offset goes on behind the bytes. -/
def Extracts (action : Action Error Value) (place width : Nat)
    (value : Bytes → Except Error Value) : Prop :=
  ∀ cursor : Cursor, cursor.offset = place → place + width ≤ cursor.buf.length →
    ∃ after, action cursor = (value cursor.buf, after) ∧ after.buf = cursor.buf ∧
      ((∃ found, value cursor.buf = .ok found) → after.offset = place + width) ∧
      (cursor.Contained → after.Contained)

variable {place : Nat}

theorem extracts_pure (value : Value) :
    Extracts (pure value : Action Error Value) place 0 fun _ => .ok value := by
  intro cursor here _
  exact ⟨cursor, rfl, rfl, fun _ => here, id⟩

theorem extracts_fail (error : Error) :
    Extracts (fail error : Action Error Value) place 0 fun _ => .error error := by
  intro cursor here _
  exact ⟨cursor, rfl, rfl, fun _ => here, id⟩

theorem extracts_extract (width : Nat) : Extracts (extract width : Action Error Bytes) place width
      fun buf => .ok (buf.slice place width) := by
  intro cursor here room
  subst here
  exact ⟨_, rfl, rfl, fun _ => rfl, fun contained => Contained.access contained room⟩

theorem extracts_check (bad : Prop) [Decidable bad] (error : Error) :
    Extracts (if bad then fail error else pure () : Action Error Unit) place 0
      fun _ => if bad then .error error else .ok () := by
  split
  · exact extracts_fail error
  · exact extracts_pure ()

theorem extracts_bind {action : Action Error Value} {next : Value → Action Error Next}
    {first second : Nat} {value : Bytes → Except Error Value}
    {then_ : Value → Bytes → Except Error Next} (extracts : Extracts action place first value)
    (rest : ∀ found, Extracts (next found) (place + first) second (then_ found)) :
    Extracts (action >>= next) place (first + second) fun buf =>
      value buf >>= fun found => then_ found buf := by
  intro cursor here room
  obtain ⟨after, result, same, offset, contained⟩ := extracts cursor here (by omega)
  rw [bind_apply, result]
  dsimp only
  cases found : value cursor.buf with
  | error error =>
    refine ⟨after, rfl, same, fun success => ?_, contained⟩
    obtain ⟨_, no⟩ := success
    cases no
  | ok middle =>
    obtain ⟨last, run, again, further, kept⟩ := rest middle after (offset ⟨middle, found⟩)
      (by rw [same]; omega)
    rw [same] at run again further
    refine ⟨last, run, again, fun success => ?_, fun start => kept (contained start)⟩
    rw [further success, Nat.add_assoc]

theorem extracts_extractNumber (bits width : Nat) :
    Extracts (extractNumber bits width : Action Error (BitVec bits)) place width
      fun buf => .ok (buf.number bits place width) :=
  extracts_bind (extracts_extract width) fun _ => extracts_pure _

theorem Extracts.of_eq {action : Action Error Value} {width other : Nat}
    {value again : Bytes → Except Error Value} (extracts : Extracts action place width value)
    (sameWidth : width = other) (same : ∀ buf, value buf = again buf) :
    Extracts action place other again := by
  subst sameWidth
  exact (funext same : value = again) ▸ extracts

end Cursor

end TowerSafe.Library
