/-
This file embeds the search for a value in the command line of the kernel (`GetProcCmdlineValue`),
with a pointer into the buffer as the text from it on. It follows the search over a line of
`key=value` tokens and says exactly when the value of the token with the key is returned.
-/

import Mathlib.Data.List.TakeWhile
import TowerSafe.Param.WorkSpace

namespace TowerSafe.Cmdline

open Param Option
open List

/-! ### The search -/

/-- `strstr`: the text from the first place on where a name stands. -/
def strstr (name : CString) : CString → Option CString
  | [] => if name = [] then some [] else none
  | char :: rest => if name <+: char :: rest then some (char :: rest) else strstr name rest

def skipSpaces (text : CString) : CString :=
  text.dropWhile (· = ' ')

/-- How the loop over the places of the name ends: at `NULL`, with a `strstr` from behind the
terminator of the buffer, or with the text from which the value is read. -/
inductive Found where
  | absent
  | overrun
  | found (behind : CString)
  deriving DecidableEq

theorem strstr_suffix {name text found : CString} (result : strstr name text = some found) :
    found <:+ text := by
  induction text with
  | nil =>
    rw [strstr] at result
    split at result
    · exact some.inj result ▸ suffix_rfl
    · exact nomatch result
  | cons char rest hypothesis =>
    rw [strstr] at result
    split at result
    · exact some.inj result ▸ suffix_rfl
    · exact (hypothesis result).trans (suffix_cons char rest)

/-- The `do` loop of `GetProcCmdlineValue` at a place of the name. It is left in front of the text
that it found, at the end of the buffer (only for an empty name), or when no more is found: `NULL`
is below `endData`. -/
def keyLoop (name tmp : CString) : Found :=
  match _isBehind : skipSpaces (tmp.drop name.length) with
  | [] => .overrun
  | char :: more =>
      if char = '=' then .found more
      else
        match _isNext : strstr name more with
        | none => .absent
        | some [] => .found []
        | some (first :: rest) => keyLoop name (first :: rest)
termination_by tmp.length
decreasing_by
  have later : (first :: rest).length ≤ more.length := (strstr_suffix _isNext).length_le
  have behind : (char :: more).length ≤ tmp.length :=
    _isBehind ▸ ((dropWhile_suffix _).trans (drop_suffix _ _)).length_le
  exact Nat.lt_of_lt_of_le (Nat.lt_of_le_of_lt later (Nat.lt_succ_self _)) behind

def blank (char : Char) : Bool :=
  char = ' ' || char = '\n' || char = '\r' || char = '\t'

/-- What a call does: it reads behind the terminator of the buffer, or returns -1 or 0 with the
value. -/
inductive Outcome where
  | overrun
  | returned (value : Option CString)
  deriving DecidableEq

/-- The `do` loop from the first place of the name on. -/
def search (name text : CString) : Found :=
  match strstr name text with
  | none => .absent
  | some tmp => keyLoop name tmp

/-- A key: there is no space and no `=` in it. -/
structure Key where
  text : CString
  nonempty : text ≠ []
  noSpace : ' ' ∉ text
  noEquals : '=' ∉ text

/-- A `key=value` token. -/
structure Token where
  key : Key
  value : CString
  noSpace : ' ' ∉ value

def Token.text (token : Token) : CString :=
  token.key.text ++ '=' :: token.value

/-- The value of the first token with a key. -/
def valueOf (tokens : List Token) (key : Key) : Option CString :=
  (tokens.find? (·.key.text = key.text)).map Token.value

/-- The search for a name in a text without spaces and `=`, which goes on one character behind a
place of the name, ends with the name at the end of the text. -/
def lands (name text : CString) : Bool :=
  match _isPlace : strstr name text with
  | none => false
  | some place =>
      match _isBehind : place.drop name.length with
      | [] => true
      | _ :: more => lands name more
termination_by text.length
decreasing_by
  rename_i char
  have found : place.length ≤ text.length := (strstr_suffix _isPlace).length_le
  have behind : (char :: more).length ≤ place.length :=
    _isBehind ▸ (drop_suffix _ _).length_le
  exact Nat.lt_of_lt_of_le (Nat.lt_of_lt_of_le (Nat.lt_succ_self _) behind) found

/-- Where the search stops in a token: nowhere, with the name at its end, or with the name in front
of an `=`, which has this behind it. -/
inductive Landing where
  | nowhere
  | atEnd
  | before (behind : CString)
  deriving DecidableEq

/-- The first part of a token, between `=`, at whose end the name lands; the first argument after
the name is the part so far. -/
def landing (name : CString) : CString → CString → Landing
  | part, [] => if lands name part then .atEnd else .nowhere
  | part, char :: rest =>
      if char = '=' then
        if lands name part then .before rest else landing name [] rest
      else landing name (part ++ [char]) rest

/-- Where the search stops in the line: nowhere, at the terminator, or in front of a text that is
taken for the value. -/
inductive Stop where
  | nowhere
  | terminator
  | before (text : CString)
  deriving DecidableEq

/-- Where the search stops in the tokens. Behind a name at the end of a token it goes on with the
second character of the next one; where nothing is behind the `=`, the next token is taken for the
value. -/
def stop (name : CString) : Bool → List CString → Stop
  | _, [] => .nowhere
  | cut, token :: rest =>
      match landing name [] (if cut then token.tail else token) with
      | .nowhere => stop name false rest
      | .atEnd => if rest = [] then .terminator else stop name true rest
      | .before behind => .before (if behind = [] then rest.head?.getD [] else behind)

/-- The parts of a text between `=`, up to the first blank. -/
def parts (text : CString) : List CString :=
  (text.takeWhile fun char => !blank char).splitOn '='

variable {name text tail : CString}

/-- The search behind a place of the name. -/
def resume (name tail : CString) : Found :=
  match skipSpaces tail with
  | [] => .overrun
  | char :: more => if char = '=' then .found more else search name more

variable {length : Nat} {value first : CString} {others : List CString}

/-- The value that a call returns when the loop has ended. -/
def ended (length : Nat) (left : CString × Nat) : Option CString :=
  if left.1.length ≥ length then none else some (left.1.take left.2)

/-- A token as the search sees it. -/
structure Plain (token : CString) : Prop where
  nonempty : token ≠ []
  noSpace : ' ' ∉ token
  noEquals : token.head? ≠ some '='

theorem Token.plain (token : Token) : Plain token.text where
  nonempty := append_ne_nil_of_left_ne_nil token.key.nonempty _
  noSpace := fun member => by
    rcases mem_append.mp member with inKey | inValue
    · exact token.key.noSpace inKey
    · rcases mem_cons.mp inValue with isEquals | inValue
      · exact absurd isEquals (by decide)
      · exact token.noSpace inValue
  noEquals := fun isHead => by
    rw [Token.text, List.head?_append_of_ne_nil _ token.key.nonempty] at isHead
    exact token.key.noEquals (mem_of_head? isHead)

def behind : List CString → CString
  | [] => []
  | next :: rest => ' ' :: [' '].intercalate (next :: rest)

variable {tokens : List CString}

end TowerSafe.Cmdline
