import Mathlib.Data.List.Basic
import SecureStream.Proofs.Diagnostics.Collecting
import SecureStream.Proofs.Diagnostics.Flags

/-!
# Which events are captured

An event is captured if its target names a topic, the level of its severity is reached at the tap or on the thread,
and it has a message (`Tap.Captures`).  A run of events leaves one diagnostic for each of these, in order, and more
of them when levels are raised (`Tap.captures_exactly`).

* (a) A target names a topic if the name stands behind the start of all targets, and behind it there is nothing, or
  two colons and anything (`Event.topicOf?_eq_some_iff`).  This needs that no name has a colon in it.
* (b) An event that names a topic and has a message is covered or not by the levels alone (`Tap.captures_iff`), so
  what is captured is a filter of what the events turn into.
-/

namespace SecureStream

/-! ### Targets -/

theorem Topic.colon_not_mem_name (t : Topic) : ':' ∉ t.name.toList := by cases t <;> decide

namespace Event

/-- A text without colons in front of a path belongs to its first segment. -/
theorem segment_append {name : List Char} (h : ':' ∉ name) (path : List Char) :
    segment (name ++ path) = name ++ segment path := by
  induction name with
  | nil => rfl
  | cons c name ih =>
    simp only [List.mem_cons, not_or] at h
    obtain ⟨hc, hname⟩ := h
    rw [List.cons_append, segment, ih hname, List.cons_append]
    rintro rest rfl
    exact absurd rfl hc

/-- A path ends with its first segment or goes on with two colons. -/
theorem segment_cases (path : List Char) :
    path = segment path ∨ ∃ rest, path = segment path ++ ':' :: ':' :: rest := by
  fun_induction segment path with
  | case1 rest => exact .inr ⟨rest, rfl⟩
  | case2 c path _ ih =>
    rcases ih with hend | ⟨rest, hmore⟩
    · exact .inl (congrArg (c :: ·) hend)
    · exact .inr ⟨rest, congrArg (c :: ·) hmore⟩
  | case3 => exact .inl rfl

theorem segment_eq_iff {name path : List Char} (h : ':' ∉ name) :
    segment path = name ↔ path = name ∨ ∃ rest, path = name ++ ':' :: ':' :: rest := by
  constructor
  · rintro rfl
    exact segment_cases path
  · rintro (rfl | ⟨rest, rfl⟩)
    · simpa [segment] using segment_append h []
    · simpa [segment] using segment_append h (':' :: ':' :: rest)

/-- The target names the topic: behind the start there is its name, and then nothing, or two colons and anything. -/
def Targets (target : String) (t : Topic) : Prop :=
  target = targetStart ++ t.name ∨ ∃ rest, target = targetStart ++ t.name ++ "::" ++ rest

theorem targets_iff {target : String} {t : Topic} :
    Targets target t ↔ ∃ path, target.toList = targetStart.toList ++ path ∧ segment path = t.name.toList := by
  have hcolons : "::".toList = [':', ':'] := by decide
  constructor
  · rintro (rfl | ⟨rest, rfl⟩)
    · exact ⟨t.name.toList, String.toList_append, (segment_eq_iff t.colon_not_mem_name).2 (.inl rfl)⟩
    · refine ⟨t.name.toList ++ ':' :: ':' :: rest.toList, ?_, ?_⟩
      · simp only [String.toList_append, hcolons, List.append_assoc, List.cons_append, List.nil_append]
      · exact (segment_eq_iff t.colon_not_mem_name).2 (.inr ⟨rest.toList, rfl⟩)
  · rintro ⟨path, htarget, hname⟩
    rcases (segment_eq_iff t.colon_not_mem_name).1 hname with rfl | ⟨rest, rfl⟩
    · left
      rw [← String.toList_inj, String.toList_append]
      exact htarget
    · right
      refine ⟨String.ofList rest, ?_⟩
      rw [← String.toList_inj, htarget]
      simp only [String.toList_append, hcolons, String.toList_ofList, List.append_assoc, List.cons_append,
        List.nil_append]

theorem topicOf?_eq_some_iff {target : String} {t : Topic} : topicOf? target = some t ↔ Targets target t := by
  rw [targets_iff]
  simp only [topicOf?, Option.bind_eq_bind, Option.bind_eq_some_iff, Text.rest?_eq_some_iff,
    Topic.ofName?_eq_some_iff]
  refine exists_congr fun path => and_congr_right fun _ => ?_
  rw [← String.toList_inj, String.toList_ofList]
  exact eq_comm

/-! ### Texts -/

/-- The event has a message, and the text is this message with all other fields behind it, each as a blank and
`name=value`. -/
def Tells (e : Event) (text : String) : Prop :=
  ∃ message, e.message? = some message ∧
    text = message ++ String.join (e.details.map fun (name, value) => " " ++ name ++ "=" ++ value)

theorem text?_eq_some_iff {e : Event} {text : String} : e.text? = some text ↔ e.Tells text := by
  rw [text?_eq, Option.map_eq_some_iff]
  exact exists_congr fun message => and_congr_right fun _ => eq_comm

end Event

/-! ### Levels -/

/-- No level is higher than the other one of the same topic. -/
def Verbosity.IsWithin (v v' : Verbosity) : Prop := ∀ t, v.levels.get t ≤ v'.levels.get t

theorem Verbosity.IsWithin.covers {v v' : Verbosity} (h : v.IsWithin v') {d : Diagnostic}
    (hd : v.covers d = true) : v'.covers d = true := by
  rw [Verbosity.covers_eq, decide_eq_true_eq] at hd ⊢
  exact UInt8.le_trans hd (h d.topic)

namespace Tap

variable {tap tap' : Tap} {v v' : Verbosity} {e : Event} {d : Diagnostic}

/-- Behind the tap, on a thread with the verbosity, the event is captured as the diagnostic. -/
structure Captures (tap : Tap) (v : Verbosity) (e : Event) (d : Diagnostic) : Prop where
  targets : Event.Targets e.target d.topic
  level_eq : d.level =
    match e.severity with
    | .error | .warn | .info => 1
    | .debug => 2
    | .trace => 3
  level_le : d.level.toNat ≤ max (tap.verbosity.levels.get d.topic).toNat (v.levels.get d.topic).toNat
  tells : e.Tells d.text

theorem covers_iff :
    tap.covers v d = true ↔
      d.level.toNat ≤ max (tap.verbosity.levels.get d.topic).toNat (v.levels.get d.topic).toNat := by
  simp only [covers, Verbosity.covers_eq, Bool.or_eq_true, decide_eq_true_eq, UInt8.le_iff_toNat_le]
  omega

theorem captures_iff : tap.Captures v e d ↔ e.diagnostic?.filter (tap.covers v) = some d := by
  rw [Option.filter_eq_some_iff, Event.diagnostic?_eq_some_iff, Event.topicOf?_eq_some_iff, Event.text?_eq_some_iff,
    covers_iff]
  constructor
  · rintro ⟨htargets, hlevel, hle, htells⟩
    exact ⟨⟨htargets, hlevel, htells⟩, hle⟩
  · rintro ⟨⟨htargets, hlevel, htells⟩, hle⟩
    exact ⟨htargets, hlevel, hle, htells⟩

instance (tap : Tap) (v : Verbosity) (e : Event) : Decidable (∃ d, tap.Captures v e d) :=
  decidable_of_iff ((e.diagnostic?.filter (tap.covers v)).isSome = true) <| by
    simp only [Option.isSome_iff_exists, captures_iff]

theorem covers_mono (htap : tap.verbosity.IsWithin tap'.verbosity) (hv : v.IsWithin v')
    (hd : tap.covers v d = true) : tap'.covers v' d = true := by
  rw [covers, Bool.or_eq_true] at hd ⊢
  rcases hd with hd | hd
  · exact .inl (htap.covers hd)
  · exact .inr (hv.covers hd)

/-! ### Runs of events -/

/-- Elements that are related to something are replaced by what they are related to. -/
private theorem forall₂_filterMap {α β : Type} {R : α → β → Prop} [∀ a, Decidable (∃ b, R a b)]
    {f : α → Option β} (hf : ∀ a b, R a b ↔ f a = some b) (l : List α) :
    List.Forall₂ R (l.filter fun a => ∃ b, R a b) (l.filterMap f) := by
  induction l with
  | nil => exact .nil
  | cons a l ih =>
    rcases ha : f a with _ | b
    · have hnone : ¬ ∃ b, R a b := by
        rintro ⟨b, hb⟩
        rw [hf, ha] at hb
        cases hb
      rw [List.filter_cons_of_neg (by simpa using hnone), List.filterMap_cons_none ha]
      exact ih
    · have hb : R a b := (hf a b).2 ha
      rw [List.filter_cons_of_pos (by simpa using ⟨b, hb⟩), List.filterMap_cons_some ha]
      exact .cons hb ih

/-- Each event that is captured leaves one diagnostic, in order. -/
theorem forall₂_captured (tap : Tap) (v : Verbosity) (events : List Event) :
    List.Forall₂ (tap.Captures v) (events.filter fun e => ∃ d, tap.Captures v e d) (tap.captured v events) := by
  rw [captured, List.filter_filterMap]
  have hiff (e : Event) (d : Diagnostic) : tap.Captures v e d ↔ e.diagnostic?.filter (tap.covers v) = some d :=
    captures_iff
  exact forall₂_filterMap hiff events

/-- With lower levels, of what the higher levels capture that is captured which the lower ones cover. -/
theorem captured_eq_filter (htap : tap.verbosity.IsWithin tap'.verbosity) (hv : v.IsWithin v')
    (events : List Event) : tap.captured v events = (tap'.captured v' events).filter (tap.covers v) := by
  rw [captured, captured, List.filter_filter]
  apply List.filter_congr
  intro d _
  by_cases hd : tap.covers v d = true
  · rw [hd, covers_mono htap hv hd]
    rfl
  · simp [hd]

/-- Of some events those are captured, once each and in order, whose target names a topic, whose level is no higher
than the higher one of the two levels that the tap and the thread have for this topic, and which have a message.
When levels of the tap or of the thread are raised, every event that was captured is captured as the same
diagnostic, and diagnostics are only added between those that were there. -/
theorem captures_exactly (tap : Tap) (c : Collector) (events : List Event) :
    ∃ new : List Diagnostic, tap.offerAll c events = { c with kept := c.kept ++ new } ∧
      List.Forall₂ (tap.Captures c.verbosity) (events.filter fun e => ∃ d, tap.Captures c.verbosity e d) new ∧
      ∀ (tap' : Tap) (v' : Verbosity), tap.verbosity.IsWithin tap'.verbosity → c.verbosity.IsWithin v' →
        (∀ e d, tap.Captures c.verbosity e d → tap'.Captures v' e d) ∧
          ∃ more : List Diagnostic, tap'.offerAll { c with verbosity := v' } events =
              { c with verbosity := v', kept := c.kept ++ more } ∧
            new.Sublist more ∧ new = more.filter (tap.covers c.verbosity) := by
  refine ⟨tap.captured c.verbosity events, offerAll_eq tap c events, forall₂_captured tap c.verbosity events, ?_⟩
  intro tap' v' htap hv
  have hfilter := captured_eq_filter htap hv events
  refine ⟨?_, tap'.captured v' events, offerAll_eq tap' _ events, ?_, hfilter⟩
  · rintro e d ⟨htargets, hlevel, hle, htells⟩
    exact ⟨htargets, hlevel, covers_iff.1 (covers_mono htap hv (covers_iff.2 hle)), htells⟩
  · rw [hfilter]
    exact List.filter_sublist

/-- One event of five is captured.  Two others have targets that look like those of a topic, one has no message, and
for one the levels are too low.  This last one is captured when the thread raises its level. -/
theorem captures_exactly_near_misses :
    let tap : Tap := ⟨⟨0, 0, 3, 2, 0⟩⟩
    let raised : Verbosity := ⟨0, 0, 0, 0, 1⟩
    let unwrapped : Event :=
      ⟨"tidewire::record::unwrap", .trace, [("consumed", "7"), ("message", "record unwrapped"), ("produced", "4")]⟩
    let refused : Event := ⟨"tidewire::engine", .warn, [("message", "engine refused")]⟩
    let events : List Event :=
      [⟨"tidewire::record:unwrap", .error, [("message", "one colon")]⟩, unwrapped,
        ⟨"tidewire::records", .error, [("message", "no topic")]⟩, refused,
        ⟨"tidewire::close", .debug, [("status", "NeedWrap")]⟩]
    let new : List Diagnostic := [⟨.record, 3, "record unwrapped consumed=7 produced=4"⟩]
    tap.offerAll .fresh events = { Collector.fresh with kept := new.toArray } ∧
      List.Forall₂ (tap.Captures .quiet) [unwrapped] new ∧
      tap.verbosity.IsWithin tap.verbosity ∧ Verbosity.quiet.IsWithin raised ∧
      ∃ more, tap.offerAll { Collector.fresh with verbosity := raised } events =
          { Collector.fresh with verbosity := raised, kept := more } ∧
        new.Sublist more.toList ∧ more.size = 2 := by
  intro tap raised unwrapped refused events new
  have hlow : tap.offerAll .fresh events = { Collector.fresh with kept := new.toArray } := by decide +kernel
  have hhigh : (tap.offerAll { Collector.fresh with verbosity := raised } events).kept.size = 2 := by decide +kernel
  have hpassing : (events.filter fun e => ∃ d, tap.Captures .quiet e d) = [unwrapped] := by decide +kernel
  have hself : tap.verbosity.IsWithin tap.verbosity := fun t => UInt8.le_refl _
  have hraised : Verbosity.quiet.IsWithin raised := by
    intro t
    cases t <;> decide
  obtain ⟨captured, hcaptured, hforall, hraise⟩ := captures_exactly tap .fresh events
  have hsame : captured = new := by
    have hkept := congrArg (·.kept.toList) (hcaptured.symm.trans hlow)
    simpa [Collector.fresh] using hkept
  subst hsame
  obtain ⟨-, more, hmore, hsublist, -⟩ := hraise tap raised hself hraised
  rw [hmore] at hhigh
  refine ⟨hlow, hpassing ▸ hforall, hself, hraised, _, hmore, ?_, hhigh⟩
  simpa [Collector.fresh] using hsublist

end Tap

end SecureStream
