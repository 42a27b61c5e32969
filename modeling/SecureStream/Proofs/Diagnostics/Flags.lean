import Mathlib.Data.List.Basic
import SecureStream.Diagnostics.Verbosity

/-!
# Flags as they are written

A flag is the name of a topic, or `all`, and behind it the digits of a level, which may be missing
(`WrittenFlag`).  These texts are accepted and no others, and each sets what it names and nothing else
(`Verbosity.applyFlag_exactly`).

* (a) A text is cut at its first digit in one way only (`Text.cutsAtDigit_iff`), which is how a flag is read
  (`Verbosity.parseFlag_of_name`).
* (b) What stands behind the cut is a level if it consists of digits with a value of at most 255
  (`Verbosity.level?_eq_some_iff`).
* (c) `Refusal` says which texts are refused, and in which words.
-/

namespace SecureStream

/-! ### Cutting at a digit -/

namespace Text

/-- Nothing in front of the cut is a digit, and what stands behind it starts with one if it is not empty. -/
structure CutsAtDigit (text name tail : List Char) : Prop where
  eq_append : text = name ++ tail
  of_name : ∀ c ∈ name, c.isDigit = false
  of_tail : ∀ c ∈ tail.head?, c.isDigit = true

theorem cutsAtDigit (text : List Char) :
    CutsAtDigit text (text.takeWhile (!·.isDigit)) (text.dropWhile (!·.isDigit)) := by
  refine ⟨List.takeWhile_append_dropWhile.symm, ?_, ?_⟩
  · intro c hc
    simpa using List.all_eq_true.1 List.all_takeWhile c hc
  · intro c hc
    have hfirst := List.head?_dropWhile_not (!·.isDigit) text
    rw [Option.mem_def.1 hc] at hfirst
    simpa using hfirst

/-- There is one way only to cut a text at its first digit. -/
theorem cutsAtDigit_iff {text name tail : List Char} :
    CutsAtDigit text name tail ↔
      text.takeWhile (!·.isDigit) = name ∧ text.dropWhile (!·.isDigit) = tail := by
  constructor
  · rintro ⟨rfl, hname, htail⟩
    have hall : ∀ c ∈ name, (!c.isDigit) = true := by simpa using hname
    rw [List.takeWhile_append_of_pos hall, List.dropWhile_append_of_pos hall]
    cases tail with
    | nil => simp
    | cons c tail =>
      have hc : c.isDigit = true := htail c rfl
      simp [hc]
  · rintro ⟨rfl, rfl⟩
    exact cutsAtDigit text

end Text

/-! ### Written flags -/

/-- What a flag is about. -/
inductive FlagScope where
  | all
  | only (topic : Topic)
  deriving DecidableEq, Repr

namespace FlagScope

def name : FlagScope → String
  | all => "all"
  | only .codec => "codec"
  | only .handshake => "handshake"
  | only .record => "record"
  | only .close => "close"
  | only .engine => "engine"

theorem name_only (topic : Topic) : (only topic).name = topic.name := by cases topic <;> rfl

def covers : FlagScope → Topic → Bool
  | all, _ => true
  | only topic, t => decide (t = topic)

/-- Sets the level of what a flag is about. -/
def set (scope : FlagScope) (l : Levels) (level : UInt8) : Levels :=
  match scope with
  | all => .all level
  | only topic => l.set topic level

theorem get_set (scope : FlagScope) (l : Levels) (level : UInt8) (t : Topic) :
    (scope.set l level).get t = if scope.covers t then level else l.get t := by
  cases scope with
  | all => simp [set, covers]
  | only topic =>
    by_cases h : t = topic
    · subst h
      simp [set, covers]
    · simp [set, covers, h, l.get_set_of_ne level h]

theorem isDigit_of_mem_name {scope : FlagScope} {c : Char} (hc : c ∈ scope.name.toList) : c.isDigit = false := by
  have hname : scope.name.toList.all (!·.isDigit) = true := by
    rcases scope with _ | topic
    · rfl
    · cases topic <;> rfl
  simpa using List.all_eq_true.1 hname c hc

theorem name_ne_nil (scope : FlagScope) : scope.name.toList ≠ [] := by
  rcases scope with _ | topic
  · decide
  · cases topic <;> decide

end FlagScope

theorem Topic.ofName?_eq_some_iff {name : String} {t : Topic} : ofName? name = some t ↔ t.name = name := by
  constructor
  · intro h
    simpa using List.find?_some h
  · rintro rfl
    exact ofName?_name t

/-- Digits that write a number of at most 255, or no digits. -/
def IsLevel (digits : List Char) : Prop := digits.all Char.isDigit = true ∧ Text.ofDigits digits ≤ 255

/-- The number that digits write.  No digits mean level 1. -/
def levelOf (digits : List Char) : UInt8 := if digits = [] then 1 else UInt8.ofNat (Text.ofDigits digits)

/-- A flag as it is written. -/
structure WrittenFlag where
  scope : FlagScope
  digits : List Char
  isLevel : IsLevel digits

namespace WrittenFlag

variable (f : WrittenFlag)

/-- The name and the digits behind it. -/
def text : String := String.ofList (f.scope.name.toList ++ f.digits)

def level : UInt8 := levelOf f.digits

/-- Sets the level that is written for what the flag is about. -/
def applyTo (v : Verbosity) : Verbosity := ⟨f.scope.set v.levels f.level⟩

theorem get_applyTo (v : Verbosity) (t : Topic) :
    (f.applyTo v).levels.get t = if f.scope.covers t then f.level else v.levels.get t :=
  f.scope.get_set v.levels f.level t

/-- A text is a flag if it is cut at its first digit into a name and a level. -/
theorem cutsAtDigit : Text.CutsAtDigit f.text.toList f.scope.name.toList f.digits := by
  refine ⟨by simp [text], fun c hc => FlagScope.isDigit_of_mem_name hc, fun c hc => ?_⟩
  exact List.all_eq_true.1 f.isLevel.1 c (List.mem_of_mem_head? hc)

end WrittenFlag

namespace Verbosity

theorem ext_get {v v' : Verbosity} (h : ∀ t, v.levels.get t = v'.levels.get t) : v = v' := by
  cases v
  cases v'
  exact congrArg Verbosity.mk (Levels.ext_get h)

/-! ### Reading a flag -/

theorem level?_eq_some_iff {tail : List Char} {level : UInt8} :
    level? tail = some level ↔ IsLevel tail ∧ levelOf tail = level := by
  unfold level? levelOf IsLevel
  cases tail with
  | nil => simp [Text.ofDigits]
  | cons c tail =>
    rw [if_neg (by simp), if_neg (by simp), Option.map_eq_some_iff]
    constructor
    · rintro ⟨n, hn, rfl⟩
      obtain ⟨-, hdigits, rfl, hle⟩ := Text.decimal?_eq_some_iff.1 hn
      exact ⟨⟨hdigits, hle⟩, rfl⟩
    · rintro ⟨⟨hdigits, hle⟩, rfl⟩
      exact ⟨_, Text.decimal?_eq_some_iff.2 ⟨by simp, hdigits, rfl, hle⟩, rfl⟩

theorem level?_of_isLevel {tail : List Char} (h : IsLevel tail) : level? tail = some (levelOf tail) :=
  level?_eq_some_iff.2 ⟨h, rfl⟩

theorem level?_of_not_isLevel {tail : List Char} (h : ¬ IsLevel tail) : level? tail = none := by
  rw [Option.eq_none_iff_forall_ne_some]
  exact fun level heq => h (level?_eq_some_iff.1 heq).1

variable {flag : String} {name tail : List Char}

/-- A flag that is cut behind a name. -/
theorem parseFlag_of_name (h : Text.CutsAtDigit flag.toList name tail) (hname : name ≠ [])
    (htail : IsLevel tail) : parseFlag flag = .ok (String.ofList name, levelOf tail) := by
  obtain ⟨htake, hdrop⟩ := Text.cutsAtDigit_iff.1 h
  have hflag : flag.toList ≠ [] := by
    rw [h.eq_append]
    simp [hname]
  unfold parseFlag
  simp only [htake, hdrop, level?_of_isLevel htail]
  rw [if_neg (by simpa using hflag), if_neg (by simpa using hname)]

theorem parseFlag_of_not_isLevel (h : Text.CutsAtDigit flag.toList name tail) (hname : name ≠ [])
    (htail : ¬ IsLevel tail) : parseFlag flag = .error (.badLevel flag) := by
  obtain ⟨htake, hdrop⟩ := Text.cutsAtDigit_iff.1 h
  have hflag : flag.toList ≠ [] := by
    rw [h.eq_append]
    simp [hname]
  unfold parseFlag
  simp only [htake, hdrop, level?_of_not_isLevel htail]
  rw [if_neg (by simpa using hflag), if_neg (by simpa using hname)]

theorem parseFlag_of_digit {c : Char} {rest : List Char} (h : flag.toList = c :: rest) (hc : c.isDigit = true) :
    parseFlag flag = .error (.noName flag) := by
  unfold parseFlag
  simp [h, hc]

theorem parseFlag_empty : parseFlag "" = .error .empty := by
  decide

theorem applyFlag_of_error {v : Verbosity} {e : FlagError} (h : parseFlag flag = .error e) :
    v.applyFlag flag = .error e := by
  rw [applyFlag, h]

end Verbosity

/-- A flag is applied as it is written. -/
theorem WrittenFlag.applyFlag_text (f : WrittenFlag) (v : Verbosity) :
    v.applyFlag f.text = .ok (f.applyTo v) := by
  have hparse := Verbosity.parseFlag_of_name f.cutsAtDigit f.scope.name_ne_nil f.isLevel
  rw [String.ofList_toList] at hparse
  unfold Verbosity.applyFlag
  rw [hparse]
  dsimp only
  cases hscope : f.scope with
  | all =>
    have hname : FlagScope.all.name = "all" := rfl
    rw [if_pos hname, applyTo, hscope]
    rfl
  | only topic =>
    have hname : (FlagScope.only topic).name ≠ "all" := by cases topic <;> decide
    have htopic : Topic.ofName? (FlagScope.only topic).name = some topic := by
      rw [FlagScope.name_only, Topic.ofName?_name]
    rw [if_neg hname, htopic, applyTo, hscope]
    rfl

/-- The texts that are no flags, and how they are refused. -/
inductive Refusal (flag : String) : FlagError → Prop where
  | empty (h : flag = "") : Refusal flag .empty
  /-- The text starts with a digit. -/
  | noName {c : Char} {rest : List Char} (h : flag.toList = c :: rest) (hc : c.isDigit = true) :
    Refusal flag (.noName flag)
  /-- What starts at the first digit is no level, whatever stands in front of it. -/
  | badLevel {name tail : List Char} (h : Text.CutsAtDigit flag.toList name tail) (hname : name ≠ [])
    (htail : ¬ IsLevel tail) : Refusal flag (.badLevel flag)
  /-- What stands in front of the level, or all of the text, is no name. -/
  | unknown {name tail : List Char} (h : Text.CutsAtDigit flag.toList name tail) (hname : name ≠ [])
    (htail : IsLevel tail) (hscope : ∀ scope : FlagScope, scope.name.toList ≠ name) :
    Refusal flag (.unknown (String.ofList name))

namespace Verbosity

/-- A text is refused whatever the verbosity. -/
theorem applyFlag_of_refusal {flag : String} {e : FlagError} (h : Refusal flag e) (v : Verbosity) :
    v.applyFlag flag = .error e := by
  cases h with
  | empty h =>
    subst h
    exact applyFlag_of_error parseFlag_empty
  | noName h hc => exact applyFlag_of_error (parseFlag_of_digit h hc)
  | badLevel h hname htail => exact applyFlag_of_error (parseFlag_of_not_isLevel h hname htail)
  | @unknown name tail h hname htail hscope =>
    have hall : String.ofList name ≠ "all" := fun heq => hscope .all (by simp [FlagScope.name, ← heq])
    have htopic : Topic.ofName? (String.ofList name) = none := by
      rw [Option.eq_none_iff_forall_ne_some]
      intro topic heq
      have hname : topic.name.toList = name := by rw [Topic.ofName?_eq_some_iff.1 heq, String.toList_ofList]
      exact hscope (.only topic) (by rw [FlagScope.name_only, hname])
    rw [applyFlag, parseFlag_of_name h hname htail]
    dsimp only
    rw [if_neg hall, htopic]

/-- Every text is a flag or is refused. -/
theorem exists_flag_or_refusal (flag : String) :
    (∃ f : WrittenFlag, f.text = flag) ∨ ∃ e, Refusal flag e := by
  obtain ⟨name, tail, hcut⟩ : ∃ name tail, Text.CutsAtDigit flag.toList name tail :=
    ⟨_, _, Text.cutsAtDigit flag.toList⟩
  by_cases hname : name = []
  · subst hname
    cases tail with
    | nil => exact .inr ⟨_, .empty (by simpa using hcut.eq_append)⟩
    | cons c rest => exact .inr ⟨_, .noName hcut.eq_append (hcut.of_tail c rfl)⟩
  · by_cases htail : IsLevel tail
    · by_cases hscope : ∃ scope : FlagScope, scope.name.toList = name
      · obtain ⟨scope, rfl⟩ := hscope
        refine .inl ⟨⟨scope, tail, htail⟩, ?_⟩
        rw [WrittenFlag.text, ← hcut.eq_append, String.ofList_toList]
      · exact .inr ⟨_, .unknown hcut hname htail (not_exists.1 hscope)⟩
    · exact .inr ⟨_, .badLevel hcut hname htail⟩

theorem applyFlag_eq_ok_iff {v v' : Verbosity} {flag : String} :
    v.applyFlag flag = .ok v' ↔ ∃ f : WrittenFlag, f.text = flag ∧ f.applyTo v = v' := by
  constructor
  · intro h
    rcases exists_flag_or_refusal flag with ⟨f, rfl⟩ | ⟨e, hrefusal⟩
    · rw [f.applyFlag_text] at h
      exact ⟨f, rfl, Except.ok.inj h⟩
    · rw [applyFlag_of_refusal hrefusal] at h
      cases h
  · rintro ⟨f, rfl, rfl⟩
    exact f.applyFlag_text v

theorem applyFlag_eq_error_iff {v : Verbosity} {flag : String} {e : FlagError} :
    v.applyFlag flag = .error e ↔ Refusal flag e := by
  constructor
  · intro h
    rcases exists_flag_or_refusal flag with ⟨f, rfl⟩ | ⟨e', hrefusal⟩
    · rw [f.applyFlag_text] at h
      cases h
    · rw [applyFlag_of_refusal hrefusal] at h
      cases h
      exact hrefusal
  · exact fun h => applyFlag_of_refusal h v

/-- A text is applied exactly if it is the name of a topic, or `all`, with the digits of a level of at most 255 or
with none behind it.  Then what it names has this level, or level 1, and all else is as it was.  Every other text
leaves the verbosity as it is, and the first of these faults that it has is reported: that it is empty, that it
starts with a digit, that no level starts at its first digit, that there is no such name. -/
theorem applyFlag_exactly (v : Verbosity) (flag : String) :
    (∀ v', v.applyFlag flag = .ok v' ↔ ∃ f : WrittenFlag, f.text = flag ∧
        ∀ t, v'.levels.get t = if f.scope.covers t then f.level else v.levels.get t) ∧
      (∀ e, v.applyFlag flag = .error e ↔ Refusal flag e) ∧
      ∀ e v', v.applyAll [flag] = (.error e, v') ↔ Refusal flag e ∧ v' = v := by
  refine ⟨fun v' => ?_, fun e => applyFlag_eq_error_iff, fun e v' => ?_⟩
  · rw [applyFlag_eq_ok_iff]
    refine exists_congr fun f => and_congr_right fun _ => ?_
    constructor
    · rintro rfl t
      exact f.get_applyTo v t
    · intro h
      apply ext_get
      intro t
      rw [h t, f.get_applyTo]
  · rw [← applyFlag_eq_error_iff (v := v)]
    simp only [applyAll]
    cases v.applyFlag flag with
    | ok w => simp
    | error e' => simp [eq_comm]

end Verbosity

end SecureStream
