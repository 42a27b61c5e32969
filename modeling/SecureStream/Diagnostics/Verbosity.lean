import SecureStream.Diagnostics.Topic
import SecureStream.Text.Blank
import SecureStream.Text.Decimal
import SecureStream.Text.Split

/-!
# Choosing how much is reported

A verbosity is chosen by a single number or by flags. A flag is the name of a topic, or `all`, and a level of at
most 255; without a level it means level 1. A list of flags is separated by commas, blanks around a flag do not
count, and flags that are empty are skipped. A list is applied up to its first invalid flag.

* `Verbosity.applyFlags_append`: a list applied in two parts.
-/

namespace SecureStream

/-- Why a flag is refused. -/
inductive FlagError where
  /-- There is no flag at all. -/
  | empty
  /-- The flag starts with a digit. -/
  | noName (flag : String)
  /-- What starts at the first digit is no number up to 255. -/
  | badLevel (flag : String)
  /-- There is no such topic. -/
  | unknown (name : String)
  deriving DecidableEq, Repr

def FlagError.message : FlagError → String
  | empty => "empty flag token"
  | noName flag => s!"missing flag name in: {flag}"
  | badLevel flag => s!"invalid level in flag: {flag}"
  | unknown name => s!"unknown debug flag: {name}"

/-- How much is reported. -/
structure Verbosity where
  levels : Levels
  deriving DecidableEq, Repr

namespace Verbosity

/-- Nothing is reported. -/
def quiet : Verbosity := ⟨.silent⟩

/-- The verbosity of a single number: milestones first, then records and engines, then frames, then everything. -/
def ofNumber (n : Nat) : Verbosity :=
  match n with
  | 0 => quiet
  | 1 => ⟨0, 1, 0, 1, 0⟩
  | 2 => ⟨0, 2, 1, 1, 1⟩
  | 3 => ⟨1, 2, 2, 2, 2⟩
  | _ => ⟨.all 3⟩

/-- The level written behind a name: a decimal of at most 255, or nothing for level 1. -/
def level? (text : List Char) : Option UInt8 :=
  if text.isEmpty then some 1 else (Text.decimal? 255 text).map UInt8.ofNat

/-- Cuts a flag at its first digit into a name and a level. -/
def parseFlag (flag : String) : Except FlagError (String × UInt8) :=
  let chars := flag.toList
  let name := chars.takeWhile (!·.isDigit)
  if chars.isEmpty then .error .empty
  else if name.isEmpty then .error (.noName flag)
  else
    match level? (chars.dropWhile (!·.isDigit)) with
    | some level => .ok (String.ofList name, level)
    | none => .error (.badLevel flag)

def applyFlag (v : Verbosity) (flag : String) : Except FlagError Verbosity :=
  match parseFlag flag with
  | .error e => .error e
  | .ok (name, level) =>
    -- a flag for all topics undoes what the flags before it have set
    if name = "all" then .ok ⟨.all level⟩
    else
      match Topic.ofName? name with
      | some topic => .ok ⟨v.levels.set topic level⟩
      | none => .error (.unknown name)

def flagsOf (list : String) : List String :=
  (((Text.split ',' list.toList).map Text.trim).filter (!·.isEmpty)).map String.ofList

/-- Applies flags in order up to the first invalid one. -/
def applyAll (v : Verbosity) : List String → Except FlagError Unit × Verbosity
  | [] => (.ok (), v)
  | flag :: flags =>
    match v.applyFlag flag with
    | .ok v => v.applyAll flags
    | .error e => (.error e, v)

/-- Applies a list of flags up to the first invalid one. -/
def applyFlags (v : Verbosity) (list : String) : Except FlagError Unit × Verbosity := v.applyAll (flagsOf list)

theorem applyAll_append (v : Verbosity) (s t : List String) :
    v.applyAll (s ++ t) =
      match v.applyAll s with
      | (.ok _, v) => v.applyAll t
      | (.error e, v) => (.error e, v) := by
  induction s generalizing v with
  | nil => rfl
  | cons flag s ih =>
    simp only [List.cons_append, applyAll]
    split
    · exact ih _
    · rfl

theorem flagsOf_append (s t : String) : flagsOf (s ++ "," ++ t) = flagsOf s ++ flagsOf t := by
  simp [flagsOf, Text.split_append_cons]

theorem applyFlags_append (v : Verbosity) (s t : String) :
    v.applyFlags (s ++ "," ++ t) =
      match v.applyFlags s with
      | (.ok _, v) => v.applyFlags t
      | (.error e, v) => (.error e, v) := by
  rw [applyFlags, flagsOf_append, applyAll_append]
  rfl

end Verbosity

end SecureStream
