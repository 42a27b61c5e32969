import Mathlib.Data.List.Basic
import SecureStream.Sizing.Json

/-!
# Settings of a sizing

The five numbers of a sizing are set one by one (`Sizing.Field.set`).  What is stored for a setting depends on its
field only (`Sizing.Field.fit`), so that settings of different fields may be made in any order
(`Sizing.withAll_congr`), and no number gets larger than the largest size (`Sizing.get_withAll_le`).
-/

namespace SecureStream.Sizing

/-- A number of a sizing. -/
inductive Field where
  | growth
  | handshakeRoom
  | headroom
  | expansion
  | limit
  deriving DecidableEq, Repr

/-- The fields in the order in which they are listed. -/
def Field.all : List Field := [growth, handshakeRoom, headroom, expansion, limit]

theorem Field.mem_all (f : Field) : f ∈ all := by cases f <;> decide

theorem Field.nodup_all : all.Nodup := by decide

/-- The name of a field in a record. -/
def Field.name : Field → String
  | growth => "growth_increment"
  | handshakeRoom => "handshake_buffer_len"
  | headroom => "write_headroom"
  | expansion => "unwrap_expansion_factor"
  | limit => "max_buffer_len"

theorem Field.name_injective {f g : Field} (h : f.name = g.name) : f = g := by
  have hall : ∀ f ∈ all, ∀ g ∈ all, f.name = g.name → f = g := by decide
  exact hall f f.mem_all g g.mem_all h

def Field.set (f : Field) (s : Sizing) (n : Nat) : Sizing :=
  match f with
  | growth => s.withGrowth n
  | handshakeRoom => s.withHandshakeRoom n
  | headroom => s.withHeadroom n
  | expansion => s.withExpansion n
  | limit => s.withLimit n

/-- What is stored when a field is set to a number. -/
def Field.fit (f : Field) (n : Nat) : Nat :=
  match f with
  | growth | expansion => max n 1
  | _ => n

def get (s : Sizing) : Field → Nat
  | .growth => s.growth
  | .handshakeRoom => s.handshakeRoom
  | .headroom => s.headroom
  | .expansion => s.expansion
  | .limit => s.limit

theorem ext_get {s t : Sizing} (h : ∀ f, s.get f = t.get f) : s = t :=
  Sizing.ext (h .growth) (h .handshakeRoom) (h .headroom) (h .expansion) (h .limit)

theorem get_set_self (f : Field) (s : Sizing) (n : Nat) : (f.set s n).get f = f.fit n := by
  cases f <;> rfl

theorem get_set_of_ne {f g : Field} (h : f ≠ g) (s : Sizing) (n : Nat) : (g.set s n).get f = s.get f := by
  cases f <;> cases g <;> first | rfl | exact absurd rfl h

/-- What a sizing holds in a field would be stored as it is. -/
theorem fit_get (s : Sizing) (f : Field) : f.fit (s.get f) = s.get f := by
  have hgrowth : max s.growth 1 = s.growth := Nat.max_eq_left s.growth_pos
  have hexpansion : max s.expansion 1 = s.expansion := Nat.max_eq_left s.expansion_pos
  cases f with
  | growth => exact hgrowth
  | expansion => exact hexpansion
  | handshakeRoom => rfl
  | headroom => rfl
  | limit => rfl

theorem Field.fit_le (f : Field) {n : Nat} (h : n ≤ Size.top) : f.fit n ≤ Size.top := by
  have hmax : max n 1 ≤ Size.top := Nat.max_le.2 ⟨h, by decide⟩
  cases f with
  | growth => exact hmax
  | expansion => exact hmax
  | handshakeRoom => exact h
  | headroom => exact h
  | limit => exact h

/-! ### Settings one behind the other -/

/-- A sizing with settings that have been made in order. -/
def withAll (s : Sizing) (settings : List (Field × Nat)) : Sizing :=
  settings.foldl (fun s (f, n) => f.set s n) s

variable {settings settings' : List (Field × Nat)} {f : Field} {n : Nat}

theorem get_withAll_of_not_mem (s : Sizing) (h : f ∉ settings.map Prod.fst) :
    (s.withAll settings).get f = s.get f := by
  induction settings generalizing s with
  | nil => rfl
  | cons setting settings ih =>
    obtain ⟨g, m⟩ := setting
    rw [List.map_cons, List.mem_cons, not_or] at h
    have hrest : (s.withAll ((g, m) :: settings)).get f = (g.set s m).get f := ih (g.set s m) h.2
    rw [hrest, get_set_of_ne h.1]

theorem get_withAll_of_mem (s : Sizing) (hnodup : (settings.map Prod.fst).Nodup) (h : (f, n) ∈ settings) :
    (s.withAll settings).get f = f.fit n := by
  induction settings generalizing s with
  | nil => cases h
  | cons setting settings ih =>
    rw [List.map_cons, List.nodup_cons] at hnodup
    rcases List.mem_cons.1 h with rfl | h
    · have hrest : (s.withAll ((f, n) :: settings)).get f = (f.set s n).get f :=
        get_withAll_of_not_mem (f.set s n) hnodup.1
      rw [hrest, get_set_self]
    · exact ih _ hnodup.2 h

/-- The order of settings does not matter if each field is set once. -/
theorem withAll_congr (s : Sizing) (hnodup : (settings.map Prod.fst).Nodup)
    (hnodup' : (settings'.map Prod.fst).Nodup) (h : ∀ setting, setting ∈ settings ↔ setting ∈ settings') :
    s.withAll settings = s.withAll settings' := by
  apply ext_get
  intro f
  by_cases hf : f ∈ settings.map Prod.fst
  · obtain ⟨⟨g, n⟩, hmem, rfl⟩ := List.mem_map.1 hf
    rw [get_withAll_of_mem s hnodup hmem, get_withAll_of_mem s hnodup' ((h _).1 hmem)]
  · have hf' : f ∉ settings'.map Prod.fst := by
      intro hmem
      obtain ⟨setting, hsetting, rfl⟩ := List.mem_map.1 hmem
      exact hf (List.mem_map_of_mem ((h setting).2 hsetting))
    rw [get_withAll_of_not_mem s hf, get_withAll_of_not_mem s hf']

theorem get_withAll_le {s : Sizing} (hs : ∀ f, s.get f ≤ Size.top)
    (hsettings : ∀ setting ∈ settings, setting.2 ≤ Size.top) (f : Field) :
    (s.withAll settings).get f ≤ Size.top := by
  induction settings generalizing s with
  | nil => exact hs f
  | cons setting settings ih =>
    obtain ⟨g, n⟩ := setting
    have hn : n ≤ Size.top := hsettings _ List.mem_cons_self
    apply ih (s := g.set s n)
    · intro f
      by_cases hf : f = g
      · subst hf
        rw [get_set_self]
        exact f.fit_le hn
      · rw [get_set_of_ne hf]
        exact hs f
    · exact fun setting hmem => hsettings setting (List.mem_cons_of_mem _ hmem)

theorem get_usual_le (f : Field) : usual.get f ≤ Size.top := by cases f <;> decide

end SecureStream.Sizing
