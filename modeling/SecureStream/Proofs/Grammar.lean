import SecureStream.Bytes

/-!
# Grammars of streams

A stream is read item by item.  A `Grammar` finds the item at the front of a stream, if all of it is there,
and finds it whatever follows.  `Grammar.parse` reads all complete items and gives what is left, which is
the beginning of an item that is not complete.

The facts that make it harmless how a stream is cut into pieces:

* `Grammar.parse_append`: more bytes behind a stream only add items, which begin in what was left of it.
* `Grammar.exists_front`: what was left does not depend on the items, and the items do not depend on what
  was left.
-/

namespace SecureStream

/-- How the items of a stream are told apart. -/
@[ext] structure Grammar (α : Type) where
  /-- The item at the front of a stream, if all of it is there, and what follows it. -/
  first? : Bytes → Option (α × Bytes)
  first?_eq_some {stream rest : Bytes} {item : α} (h : first? stream = some (item, rest)) :
    ∃ front, front ≠ [] ∧ stream = front ++ rest ∧ ∀ more, first? (front ++ more) = some (item, more)

namespace Grammar

variable {α : Type} (g : Grammar α)

theorem length_lt {stream rest : Bytes} {item : α} (h : g.first? stream = some (item, rest)) :
    rest.length < stream.length := by
  obtain ⟨front, hne, rfl, -⟩ := g.first?_eq_some h
  have := List.length_pos_iff.2 hne
  rw [List.length_append]
  omega

theorem first?_append {stream rest : Bytes} {item : α} (h : g.first? stream = some (item, rest))
    (more : Bytes) :
    g.first? (stream ++ more) = some (item, rest ++ more) := by
  obtain ⟨front, -, rfl, hfront⟩ := g.first?_eq_some h
  rw [List.append_assoc, hfront]

/-- All complete items at the front of a stream, and what is left of it. -/
def parse (stream : Bytes) : List α × Bytes :=
  match h : g.first? stream with
  | none => ([], stream)
  | some (item, rest) =>
    have := g.length_lt h
    (item :: (parse rest).1, (parse rest).2)
termination_by stream.length

variable {g}

theorem parse_of_none {stream : Bytes} (h : g.first? stream = none) : g.parse stream = ([], stream) := by
  rw [parse]
  split
  · rfl
  · next heq =>
    rw [h] at heq
    cases heq

theorem parse_of_some {stream rest : Bytes} {item : α} (h : g.first? stream = some (item, rest)) :
    g.parse stream = (item :: (g.parse rest).1, (g.parse rest).2) := by
  rw [parse]
  split
  · next heq =>
    rw [h] at heq
    cases heq
  · next heq =>
    rw [h] at heq
    cases heq
    rfl

theorem first?_left (stream : Bytes) : g.first? (g.parse stream).2 = none := by
  fun_induction parse g stream with
  | case1 stream h => exact h
  | case2 _ _ _ _ _ ih => exact ih

theorem parse_append (a b : Bytes) :
    g.parse (a ++ b) = ((g.parse a).1 ++ (g.parse ((g.parse a).2 ++ b)).1,
      (g.parse ((g.parse a).2 ++ b)).2) := by
  fun_induction parse g a with
  | case1 a h => rfl
  | case2 a item rest h _ ih =>
    rw [parse_of_some (g.first?_append h b), ih]
    rfl

/-- The bytes of the items that were read, which give the same items whatever follows them. -/
theorem exists_front (stream : Bytes) :
    ∃ front, stream = front ++ (g.parse stream).2 ∧
      ∀ more, g.parse (front ++ more) = ((g.parse stream).1 ++ (g.parse more).1, (g.parse more).2) := by
  fun_induction parse g stream with
  | case1 stream h => exact ⟨[], rfl, fun _ => rfl⟩
  | case2 stream item rest h _ ih =>
    obtain ⟨first, -, rfl, hfirst⟩ := g.first?_eq_some h
    obtain ⟨front, hrest, hfront⟩ := ih
    refine ⟨first ++ front, ?_, fun more => ?_⟩
    · rw [List.append_assoc, ← hrest]
    · rw [List.append_assoc, parse_of_some (hfirst _), hfront]
      rfl

/-! ### Streams without a rest -/

variable (g)

/-- The bytes are those of the items, and nothing else. -/
def Spells (bytes : Bytes) (items : List α) : Prop := g.parse bytes = (items, [])

variable {g}

theorem spells_nil (h : g.first? [] = none) : g.Spells [] [] := parse_of_none h

theorem Spells.parse_append {a : Bytes} {items : List α} (h : g.Spells a items) (b : Bytes) :
    g.parse (a ++ b) = (items ++ (g.parse b).1, (g.parse b).2) := by
  rw [Grammar.parse_append, h]
  rfl

theorem Spells.append {a b : Bytes} {items more : List α} (ha : g.Spells a items) (hb : g.Spells b more) :
    g.Spells (a ++ b) (items ++ more) := by
  rw [Spells, ha.parse_append, hb]

theorem spells_cons {front bytes : Bytes} {item : α} {items : List α}
    (h : g.first? (front ++ bytes) = some (item, bytes)) (hrest : g.Spells bytes items) :
    g.Spells (front ++ bytes) (item :: items) := by
  rw [Spells, parse_of_some h, hrest]

end Grammar

end SecureStream
