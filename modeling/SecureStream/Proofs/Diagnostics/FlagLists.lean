import SecureStream.Proofs.Diagnostics.Flags

/-!
# Lists of flags as they are written

A list stands for the texts between its commas, without the blanks at their ends and without those that are empty
(`FlagList`).  It is applied up to the first text that is no flag, and its flags may contradict each other: what the
last flag about a topic says counts (`Verbosity.flag_lists_compose`).

* (a) The parts of a text between its commas are determined by the text (`Text.cutsAt_iff`), and so is what is left
  of a text without the blanks at its ends (`Text.trims_iff`).
* (b) A list consists of flags, or of flags and behind them a first text that is none
  (`Verbosity.exists_flags_or_refusal`).  In the first case it is applied (`Verbosity.applyAll_eq_ok_iff`), in the
  second it fails there (`Verbosity.applyAll_eq_error_iff`).
* (c) Flags that have been applied change nothing when they are applied once more (`Verbosity.withFlags_withFlags`).
-/

namespace SecureStream

/-! ### Parts and ends of a text -/

namespace Text

/-- The parts of a text between the occurrences of a character. -/
structure CutsAt (separator : Char) (text : List Char) (parts : List (List Char)) : Prop where
  ne_nil : parts ≠ []
  eq_intercalate : text = [separator].intercalate parts
  of_part : ∀ part ∈ parts, separator ∉ part

theorem split_eq_splitOn (separator : Char) (text : List Char) : split separator text = text.splitOn separator := by
  induction text with
  | nil => simp [split]
  | cons c text ih =>
    rw [List.splitOn_cons_eq_if_modifyHead, split, ih]
    by_cases hc : c = separator
    · simp [hc]
    · rw [if_neg hc, if_neg (by simpa using hc)]
      cases hparts : text.splitOn separator with
      | nil => exact absurd hparts (List.splitOn_ne_nil separator text)
      | cons part parts => rfl

theorem not_mem_of_mem_split {separator : Char} {text part : List Char} (h : part ∈ split separator text) :
    separator ∉ part := by
  induction text generalizing part with
  | nil =>
    obtain rfl := List.mem_singleton.1 h
    simp
  | cons c text ih =>
    unfold split at h
    by_cases hc : c = separator
    · rw [if_pos hc] at h
      rcases List.mem_cons.1 h with rfl | h
      · simp
      · exact ih h
    · rw [if_neg hc] at h
      cases hparts : split separator text with
      | nil => exact absurd hparts (split_ne_nil separator text)
      | cons first parts =>
        rw [hparts] at h
        rcases List.mem_cons.1 h with rfl | h
        · have hfirst : separator ∉ first := ih (by simp [hparts])
          simp [hfirst, Ne.symm hc]
        · exact ih (by simp [hparts, h])

/-- A text is cut at a character in one way only. -/
theorem cutsAt_iff {separator : Char} {text : List Char} {parts : List (List Char)} :
    CutsAt separator text parts ↔ split separator text = parts := by
  constructor
  · rintro ⟨hparts, rfl, hpart⟩
    rw [split_eq_splitOn]
    exact List.splitOn_intercalate separator hpart hparts
  · rintro rfl
    refine ⟨split_ne_nil separator text, ?_, fun part => not_mem_of_mem_split⟩
    rw [split_eq_splitOn]
    exact (List.intercalate_splitOn separator).symm

/-- What is left of a text without the blanks at its two ends. -/
structure Trims (text core : List Char) : Prop where
  exists_append : ∃ front back, text = front ++ core ++ back ∧ ∀ c ∈ front ++ back, isBlank c = true
  of_head? : ∀ c ∈ core.head?, isBlank c = false
  of_getLast? : ∀ c ∈ core.getLast?, isBlank c = false

theorem exists_dropWhile_isBlank (text : List Char) :
    ∃ front, text = front ++ text.dropWhile isBlank ∧ ∀ c ∈ front, isBlank c = true := by
  refine ⟨text.takeWhile isBlank, List.takeWhile_append_dropWhile.symm, ?_⟩
  exact fun c => List.all_eq_true.1 List.all_takeWhile c

theorem trims_trim (text : List Char) : Trims text (trim text) := by
  obtain ⟨front, hfront, hblank⟩ := exists_dropWhile_isBlank text
  obtain ⟨back, hback, hblank'⟩ := exists_dropWhile_isBlank (text.dropWhile isBlank).reverse
  have hmiddle : text.dropWhile isBlank = trim text ++ back.reverse := by
    rw [trim, ← List.reverse_append, ← hback, List.reverse_reverse]
  refine ⟨⟨front, back.reverse, ?_, ?_⟩, ?_, ?_⟩
  · rw [List.append_assoc, ← hmiddle]
    exact hfront
  · intro c hc
    rcases List.mem_append.1 hc with hc | hc
    · exact hblank c hc
    · exact hblank' c (List.mem_reverse.1 hc)
  · intro c hc
    -- the first character of what is left is the first one that is not blank
    have hhead : (text.dropWhile isBlank).head? = some c := by
      rw [hmiddle, List.head?_append, Option.mem_def.1 hc]
      rfl
    have hnot := List.head?_dropWhile_not isBlank text
    rw [hhead] at hnot
    simpa using hnot
  · intro c hc
    have hnot := List.head?_dropWhile_not isBlank (text.dropWhile isBlank).reverse
    rw [trim, List.getLast?_reverse] at hc
    rw [Option.mem_def.1 hc] at hnot
    simpa using hnot

theorem dropWhile_isBlank_append {blanks rest : List Char} (hblanks : ∀ c ∈ blanks, isBlank c = true)
    (hrest : ∀ c ∈ rest.head?, isBlank c = false) : (blanks ++ rest).dropWhile isBlank = rest := by
  rw [List.dropWhile_append_of_pos hblanks]
  cases rest with
  | nil => rfl
  | cons c rest => simp [hrest c rfl]

/-- Blanks are taken from the ends of a text in one way only. -/
theorem trims_iff {text core : List Char} : Trims text core ↔ trim text = core := by
  constructor
  · rintro ⟨⟨front, back, rfl, hblank⟩, hhead, hlast⟩
    by_cases hcore : core = []
    · subst hcore
      -- nothing but blanks, which are all taken from the front
      have hdrop : (front ++ back ++ []).dropWhile isBlank = [] := dropWhile_isBlank_append hblank (by simp)
      rw [List.append_nil] at hdrop ⊢
      rw [trim, hdrop]
      rfl
    · have hfront : (front ++ (core ++ back)).dropWhile isBlank = core ++ back := by
        apply dropWhile_isBlank_append
        · exact fun c hc => hblank c (List.mem_append_left _ hc)
        · rwa [List.head?_append_of_ne_nil _ hcore]
      have hback : (back.reverse ++ core.reverse).dropWhile isBlank = core.reverse := by
        apply dropWhile_isBlank_append
        · exact fun c hc => hblank c (List.mem_append_right _ (List.mem_reverse.1 hc))
        · rwa [List.head?_reverse]
      rw [trim, List.append_assoc, hfront, List.reverse_append, hback, List.reverse_reverse]
  · rintro rfl
    exact trims_trim text

theorem forall₂_trims_iff {parts cores : List (List Char)} :
    List.Forall₂ Trims parts cores ↔ parts.map trim = cores := by
  constructor
  · intro h
    induction h with
    | nil => rfl
    | cons h _ ih => rw [List.map_cons, trims_iff.1 h, ih]
  · rintro rfl
    induction parts with
    | nil => exact .nil
    | cons part parts ih => exact .cons (trims_trim part) ih

end Text

/-! ### What a list stands for -/

/-- The texts that a list stands for, whether they are flags or not. -/
def FlagList (list : String) (flags : List String) : Prop :=
  ∃ parts cores, Text.CutsAt ',' list.toList parts ∧ List.Forall₂ Text.Trims parts cores ∧
    (cores.filter (!·.isEmpty)).map String.ofList = flags

namespace Verbosity

theorem flagList_iff {list : String} {flags : List String} : FlagList list flags ↔ flagsOf list = flags := by
  constructor
  · rintro ⟨parts, cores, hparts, hcores, rfl⟩
    rw [flagsOf, Text.cutsAt_iff.1 hparts, Text.forall₂_trims_iff.1 hcores]
  · rintro rfl
    exact ⟨_, _, Text.cutsAt_iff.2 rfl, Text.forall₂_trims_iff.2 rfl, rfl⟩

/-! ### Flags one behind the other -/

/-- The verbosity after flags that have been applied in order. -/
def withFlags (v : Verbosity) (fs : List WrittenFlag) : Verbosity := fs.foldl (fun v f => f.applyTo v) v

/-- The level of the last flag about a topic, or what it has been before if there is none. -/
def lastLevel (fs : List WrittenFlag) (t : Topic) (before : UInt8) : UInt8 :=
  ((fs.filter (·.scope.covers t)).getLast?.map WrittenFlag.level).getD before

variable {v v' : Verbosity} {flags : List String}

theorem applyAll_flags (v : Verbosity) (fs : List WrittenFlag) :
    v.applyAll (fs.map WrittenFlag.text) = (.ok (), v.withFlags fs) := by
  induction fs generalizing v with
  | nil => rfl
  | cons f fs ih => 
    simp only [List.map_cons, applyAll, f.applyFlag_text]
    exact ih (f.applyTo v)

theorem applyAll_refused {flag : String} {e : FlagError} (h : Refusal flag e) (v : Verbosity)
    (fs : List WrittenFlag) (after : List String) :
    v.applyAll (fs.map WrittenFlag.text ++ flag :: after) = (.error e, v.withFlags fs) := by
  rw [applyAll_append, applyAll_flags]
  simp only [applyAll, applyFlag_of_refusal h]

theorem exists_flags_or_refusal (flags : List String) :
    (∃ fs : List WrittenFlag, flags = fs.map WrittenFlag.text) ∨
      ∃ (fs : List WrittenFlag) (flag : String) (after : List String) (e : FlagError),
        flags = fs.map WrittenFlag.text ++ flag :: after ∧ Refusal flag e := by
  induction flags with
  | nil => exact .inl ⟨[], rfl⟩
  | cons flag flags ih =>
    rcases exists_flag_or_refusal flag with ⟨f, rfl⟩ | ⟨e, hrefusal⟩
    · rcases ih with ⟨fs, rfl⟩ | ⟨fs, flag, after, e, rfl, hrefusal⟩
      · exact .inl ⟨f :: fs, rfl⟩
      · exact .inr ⟨f :: fs, flag, after, e, rfl, hrefusal⟩
    · exact .inr ⟨[], flag, flags, e, rfl, hrefusal⟩

theorem applyAll_eq_ok_iff :
    v.applyAll flags = (.ok (), v') ↔
      ∃ fs : List WrittenFlag, flags = fs.map WrittenFlag.text ∧ v' = v.withFlags fs := by
  constructor
  · intro h
    rcases exists_flags_or_refusal flags with ⟨fs, rfl⟩ | ⟨fs, flag, after, e, rfl, hrefusal⟩
    · rw [applyAll_flags] at h
      exact ⟨fs, rfl, (congrArg Prod.snd h).symm⟩
    · rw [applyAll_refused hrefusal] at h
      cases h
  · rintro ⟨fs, rfl, rfl⟩
    exact applyAll_flags v fs

/-- Flags fail at the first text that is none of them. -/
theorem applyAll_eq_error_iff {e : FlagError} :
    v.applyAll flags = (.error e, v') ↔
      ∃ (fs : List WrittenFlag) (flag : String) (after : List String),
        flags = fs.map WrittenFlag.text ++ flag :: after ∧ Refusal flag e ∧ v' = v.withFlags fs := by
  constructor
  · intro h
    rcases exists_flags_or_refusal flags with ⟨fs, rfl⟩ | ⟨fs, flag, after, e', rfl, hrefusal⟩
    · rw [applyAll_flags] at h
      cases h
    · rw [applyAll_refused hrefusal] at h
      cases h
      exact ⟨fs, flag, after, rfl, hrefusal, rfl⟩
  · rintro ⟨fs, flag, after, rfl, hrefusal, rfl⟩
    exact applyAll_refused hrefusal v fs after

/-! ### Flags applied once more -/

theorem lastLevel_cons (f : WrittenFlag) (fs : List WrittenFlag) (t : Topic) (before : UInt8) :
    lastLevel (f :: fs) t before = lastLevel fs t (if f.scope.covers t then f.level else before) := by
  unfold lastLevel
  by_cases h : f.scope.covers t
  · cases hlast : (fs.filter (·.scope.covers t)).getLast? <;> simp [h, List.getLast?_cons, hlast]
  · simp [h]

theorem get_withFlags (v : Verbosity) (fs : List WrittenFlag) (t : Topic) :
    (v.withFlags fs).levels.get t = lastLevel fs t (v.levels.get t) := by
  induction fs generalizing v with
  | nil => rfl
  | cons f fs ih =>
    rw [lastLevel_cons, ← f.get_applyTo]
    exact ih (f.applyTo v)

theorem lastLevel_lastLevel (fs : List WrittenFlag) (t : Topic) (before : UInt8) :
    lastLevel fs t (lastLevel fs t before) = lastLevel fs t before := by
  unfold lastLevel
  cases (fs.filter (·.scope.covers t)).getLast? <;> rfl

theorem withFlags_withFlags (v : Verbosity) (fs : List WrittenFlag) :
    (v.withFlags fs).withFlags fs = v.withFlags fs := by
  apply ext_get
  intro t
  rw [get_withFlags, get_withFlags, lastLevel_lastLevel]

/-- A list in front of a comma and one behind it are applied one after the other, the second one only if the first
one is applied without a failure.  A list that fails has applied the texts in front of the first one that fails on
its own, with the same failure.  After a list that does not fail, each topic has the level of the last flag about it,
and the list applied once more changes nothing. -/
theorem flag_lists_compose (v : Verbosity) :
    (∀ s t, v.applyFlags (s ++ "," ++ t) =
        match v.applyFlags s with
        | (.ok _, v) => v.applyFlags t
        | (.error e, v) => (.error e, v)) ∧
      ∀ list, ∃ flags, FlagList list flags ∧
        (∀ e v', v.applyFlags list = (.error e, v') ↔
          ∃ before flag after, flags = before ++ flag :: after ∧ v.applyAll before = (.ok (), v') ∧
            v'.applyFlag flag = .error e) ∧
        ∀ v', v.applyFlags list = (.ok (), v') →
          (∃ fs : List WrittenFlag, flags = fs.map WrittenFlag.text ∧
            ∀ t, v'.levels.get t = lastLevel fs t (v.levels.get t)) ∧
          v'.applyFlags list = (.ok (), v') := by
  refine ⟨v.applyFlags_append, fun list => ⟨flagsOf list, flagList_iff.2 rfl, ?_, ?_⟩⟩
  · intro e v'
    constructor
    · intro h
      obtain ⟨fs, flag, after, hflags, hrefusal, rfl⟩ := applyAll_eq_error_iff.1 h
      exact ⟨_, flag, after, hflags, applyAll_flags v fs, applyFlag_of_refusal hrefusal _⟩
    · rintro ⟨before, flag, after, hflags, hbefore, hflag⟩
      obtain ⟨fs, rfl, rfl⟩ := applyAll_eq_ok_iff.1 hbefore
      exact applyAll_eq_error_iff.2 ⟨fs, flag, after, hflags, applyFlag_eq_error_iff.1 hflag, rfl⟩
  · intro v' h
    obtain ⟨fs, hflags, rfl⟩ := applyAll_eq_ok_iff.1 h
    refine ⟨⟨fs, hflags, v.get_withFlags fs⟩, ?_⟩
    exact applyAll_eq_ok_iff.2 ⟨fs, hflags, (v.withFlags_withFlags fs).symm⟩

/-- A list with blanks and without some flags, in which all topics are set in between. -/
theorem flag_lists_compose_mixed :
    quiet.applyFlags "codec, close3,,all02 ,record" = (.ok (), ⟨2, 2, 1, 2, 2⟩) ∧
      Verbosity.applyFlags ⟨2, 2, 1, 2, 2⟩ "codec, close3,,all02 ,record" = (.ok (), ⟨2, 2, 1, 2, 2⟩) := by
  have h : quiet.applyFlags "codec, close3,,all02 ,record" = (.ok (), ⟨2, 2, 1, 2, 2⟩) := by rfl
  obtain ⟨flags, -, -, hok⟩ := (flag_lists_compose quiet).2 "codec, close3,,all02 ,record"
  exact ⟨h, (hok _ h).2⟩

end Verbosity

end SecureStream
