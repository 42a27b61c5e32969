import SecureStream.Diagnostics.Collector

/-!
# What a collector keeps

The diagnostics kept of some events depend on the levels of the tap and of the collector in one way only: of all that
the events turn into (`Event.diagnostic?`), those are kept that one of the two verbosities covers (`Tap.captured`), in
order (`Tap.offerAll_eq`).  Behind a tap that leaves the choice to the collector only its verbosity counts
(`Tap.offerAll_plain`).  The highest level covers them all (`Verbosity.covers_highest`), and each event of this
library turns into a diagnostic (`Event.isSome_diagnostic?_ofTopic`).

An event turns into a diagnostic if its target names a topic and it has a message (`Event.text?_eq`).
-/

namespace SecureStream

namespace Verbosity

/-- The level that the verbosity has for the topic of a diagnostic reaches its own level. -/
def covers (v : Verbosity) (d : Diagnostic) : Bool :=
  match d with
  | ⟨.codec, level, _⟩ => level ≤ v.levels.codec
  | ⟨.handshake, level, _⟩ => level ≤ v.levels.handshake
  | ⟨.record, level, _⟩ => level ≤ v.levels.record
  | ⟨.close, level, _⟩ => level ≤ v.levels.close
  | ⟨.engine, level, _⟩ => level ≤ v.levels.engine

theorem covers_eq (v : Verbosity) (d : Diagnostic) : v.covers d = decide (d.level ≤ v.levels.get d.topic) := by
  obtain ⟨topic, level, text⟩ := d
  cases topic <;> rfl

/-- Every topic in every detail. -/
def highest : Verbosity := ⟨.all 3⟩

end Verbosity

namespace Severity

theorem level_pos (s : Severity) : 0 < s.level := by cases s <;> decide

theorem level_le_three (s : Severity) : s.level ≤ 3 := by cases s <;> decide

end Severity

namespace Event

/-! ### The text of an event -/

/-- The message of an event, which is the value of the last field of this name. -/
def message? (e : Event) : Option String := (e.fields.filter (·.1 = messageName)).getLast?.map Prod.snd

/-- All other fields, in order. -/
def details (e : Event) : List (String × String) := e.fields.filter (·.1 ≠ messageName)

/-- Fields that are taken down one after the other. -/
private theorem foldl_record (w : Wording) (fields : List (String × String)) :
    fields.foldl (fun w (name, value) => w.record name value) w =
      ⟨((fields.filter (·.1 = messageName)).getLast?.map Prod.snd).or w.message,
        w.details ++ (fields.filter (·.1 ≠ messageName)).map fun (name, value) => s!"{name}={value}"⟩ := by
  induction fields generalizing w with
  | nil => simp
  | cons field fields ih =>
    obtain ⟨name, value⟩ := field
    rw [List.foldl_cons, ih]
    by_cases h : name = messageName
    · cases hlast : (fields.filter (·.1 = messageName)).getLast? <;>
        simp [Wording.record, h, List.getLast?_cons, hlast]
    · simp [Wording.record, h]

private theorem foldl_detail (message : String) (details : List String) :
    details.foldl (fun text detail => s!"{text} {detail}") message =
      message ++ String.join (details.map (" " ++ ·)) := by
  induction details generalizing message with
  | nil => simp
  | cons detail details ih =>
    rw [List.foldl_cons, ih, List.map_cons, String.join_cons]
    simp only [String.append_assoc]
    rfl

/-- The message, and then each other field behind a blank. -/
theorem text?_eq (e : Event) :
    e.text? = e.message?.map fun message =>
      message ++ String.join (e.details.map fun (name, value) => " " ++ name ++ "=" ++ value) := by
  have hdetail : (" " ++ ·) ∘ (fun (field : String × String) => s!"{field.1}={field.2}") =
      fun field => " " ++ field.1 ++ "=" ++ field.2 := by
    funext field
    simp only [Function.comp_apply, String.append_assoc]
    rfl
  rw [text?, wording, foldl_record, Wording.text?]
  simp only [Wording.blank, Option.or_none, List.nil_append, foldl_detail, List.map_map, hdetail]
  rfl

theorem isSome_text? (e : Event) : e.text?.isSome = e.message?.isSome := by
  rw [text?_eq, Option.isSome_map]

/-! ### Events as diagnostics -/

/-- The diagnostic that an event turns into when it passes. -/
def diagnostic? (e : Event) : Option Diagnostic := do
  let topic ← topicOf? e.target
  let text ← e.text?
  some ⟨topic, e.severity.level, text⟩

theorem diagnostic?_eq_some_iff {e : Event} {d : Diagnostic} :
    e.diagnostic? = some d ↔
      topicOf? e.target = some d.topic ∧ d.level = e.severity.level ∧ e.text? = some d.text := by
  obtain ⟨topic, level, text⟩ := d
  simp only [diagnostic?, Option.bind_eq_bind, Option.bind_eq_some_iff, Option.some.injEq, Diagnostic.mk.injEq]
  constructor
  · rintro ⟨topic, htopic, text, htext, rfl, rfl, rfl⟩
    exact ⟨htopic, rfl, htext⟩
  · rintro ⟨htopic, rfl, htext⟩
    exact ⟨topic, htopic, text, htext, rfl, rfl, rfl⟩

theorem level_of_diagnostic? {e : Event} {d : Diagnostic} (h : e.diagnostic? = some d) :
    d.level = e.severity.level :=
  (diagnostic?_eq_some_iff.1 h).2.1

/-- The target of a topic names it. -/
theorem topicOf?_target (t : Topic) : topicOf? (targetStart ++ t.name) = some t := by
  cases t <;> decide

theorem isSome_diagnostic?_ofTopic (t : Topic) (s : Severity) (message : String)
    (fields : List (String × String)) : (ofTopic t s message fields).diagnostic?.isSome := by
  have htext : (ofTopic t s message fields).text?.isSome := by
    rw [isSome_text?, message?, ofTopic, List.filter_cons_of_pos (by simp), List.getLast?_cons]
    rfl
  obtain ⟨text, htext⟩ := Option.isSome_iff_exists.1 htext
  exact Option.isSome_iff_exists.2 ⟨⟨t, s.level, text⟩, diagnostic?_eq_some_iff.2 ⟨topicOf?_target t, rfl, htext⟩⟩

end Event

theorem Verbosity.covers_highest {e : Event} {d : Diagnostic} (h : e.diagnostic? = some d) :
    highest.covers d = true := by
  rw [covers_eq, highest, Levels.get_all, decide_eq_true_eq, Event.level_of_diagnostic? h]
  exact e.severity.level_le_three

namespace Tap

/-- A diagnostic is covered at the tap or on the thread. -/
def covers (tap : Tap) (v : Verbosity) (d : Diagnostic) : Bool := tap.verbosity.covers d || v.covers d

/-- What is captured of some events. -/
def captured (tap : Tap) (v : Verbosity) (events : List Event) : List Diagnostic :=
  (events.filterMap Event.diagnostic?).filter (tap.covers v)

theorem diagnostic?_eq (tap : Tap) (c : Collector) (e : Event) :
    tap.diagnostic? c e = e.diagnostic?.filter (tap.covers c.verbosity) := by
  unfold diagnostic? Event.diagnostic?
  rcases Event.topicOf? e.target with _ | topic
  · rfl
  have hallows (text : String) :
      tap.covers c.verbosity ⟨topic, e.severity.level, text⟩ = tap.allows c topic e.severity.level := by
    rw [covers, Verbosity.covers_eq, Verbosity.covers_eq, allows, Collector.allows]
  simp only [Option.bind_eq_bind, Option.bind_some]
  rcases e.text? with _ | text
  · simp
  · simp only [Option.bind_some, Option.filter_some, hallows]

theorem offerAll_append (tap : Tap) (c : Collector) (a b : List Event) :
    tap.offerAll c (a ++ b) = tap.offerAll (tap.offerAll c a) b := List.foldl_append

theorem offerAll_eq (tap : Tap) (c : Collector) (events : List Event) :
    tap.offerAll c events = { c with kept := c.kept ++ tap.captured c.verbosity events } := by
  induction events generalizing c with
  | nil => simp [offerAll, captured]
  | cons e events ih =>
    have hcons : tap.offerAll c (e :: events) = tap.offerAll (tap.offer c e) events := rfl
    rw [hcons, ih, offer, diagnostic?_eq]
    rcases hd : e.diagnostic? with _ | d
    · rw [captured, captured, List.filterMap_cons_none hd]
      rfl
    · rw [captured, captured, List.filterMap_cons_some hd, List.filter_cons, Option.filter_some]
      by_cases hcovers : tap.covers c.verbosity d = true
      · simp [hcovers, Collector.keep]
      · simp [hcovers]

/-- A tap without levels of its own lets nothing pass, as no severity has level zero. -/
theorem covers_plain {e : Event} {d : Diagnostic} (h : e.diagnostic? = some d) (v : Verbosity) :
    plain.covers v d = v.covers d := by
  have hpos : 0 < d.level := Event.level_of_diagnostic? h ▸ e.severity.level_pos
  have hquiet : plain.verbosity.covers d = false := by
    rw [Verbosity.covers_eq, plain, Verbosity.quiet, Levels.silent, Levels.get_all, decide_eq_false_iff_not]
    exact UInt8.not_le.mpr hpos
  rw [covers, hquiet, Bool.false_or]

theorem offerAll_plain (c : Collector) (events : List Event) :
    plain.offerAll c events =
      { c with kept := c.kept ++ (events.filterMap Event.diagnostic?).filter c.verbosity.covers } := by
  have hcovers : ∀ d ∈ events.filterMap Event.diagnostic?, plain.covers c.verbosity d = c.verbosity.covers d := by
    intro d hd
    obtain ⟨e, -, he⟩ := List.mem_filterMap.1 hd
    exact covers_plain he c.verbosity
  rw [offerAll_eq, captured, List.filter_congr hcovers]

end Tap

end SecureStream
