import SecureStream.Proofs.Buffer.Room

/-!
# Growing in steps

A buffer grows in whole steps, so the capacities that it can have lie one step apart.  Room for so many bytes
takes the fewest steps that are enough (`Pool.reach`).  When these go beyond the limit of an ample pool, the
buffer fails, and it fails with the first capacity above the limit, from wherever below the limit it has set
out (`Pool.excess_add`).

* `Scratch.stepsLeft_of_grow`: each step leaves one step less.
* `Scratch.growBy_cases`: a buffer that grows a number of times.
* `Scratch.growFor_cases`: a buffer that grows until something fits.
-/

namespace SecureStream

/-- Behind a step there is room for one step less. -/
theorem div_sub_step {limit capacity step : Nat} (hpos : 0 < step) (h : capacity + step ≤ limit) :
    (limit - (capacity + step)) / step + 1 = (limit - capacity) / step := by
  have hstep : step ≤ limit - capacity := by omega
  rw [← Nat.sub_sub, ← Nat.div_eq_sub_div hpos hstep]

namespace Pool

variable (p : Pool) {capacity needed : Nat}

/-- How many steps it takes from a capacity until so many bytes fit: the quotient rounded up. -/
def stepsFor (capacity needed : Nat) : Nat := (needed - capacity + (p.growth - 1)) / p.growth

/-- The capacity after these steps. -/
def reach (capacity needed : Nat) : Nat := capacity + p.stepsFor capacity needed * p.growth

/-- How a buffer fails that cannot grow any more. -/
def excess (capacity : Nat) : BufferError :=
  .overLimit (min (capacity + ((p.limit - capacity) / p.growth + 1) * p.growth) Size.top) p.limit

theorem stepsFor_of_le (h : needed ≤ capacity) : p.stepsFor capacity needed = 0 := by
  have hpos := p.zero_lt_growth
  unfold stepsFor
  rw [Nat.sub_eq_zero_of_le h]
  exact Nat.div_eq_of_lt (by omega)

theorem stepsFor_mono {more : Nat} (h : needed ≤ more) :
    p.stepsFor capacity needed ≤ p.stepsFor capacity more :=
  Nat.div_le_div_right (by omega)

/-- Steps that have been made need not be made again. -/
theorem stepsFor_add (capacity needed j : Nat) :
    p.stepsFor (capacity + j * p.growth) needed = p.stepsFor capacity needed - j := by
  have hpos := p.zero_lt_growth
  unfold stepsFor
  rcases Nat.le_total (p.growth * j) (needed - capacity) with hle | hle
  · have hsub : needed - (capacity + j * p.growth) + (p.growth - 1) =
        needed - capacity + (p.growth - 1) - p.growth * j := by
      rw [Nat.mul_comm j]
      omega
    rw [hsub, Nat.sub_mul_div]
  · have hdone : needed - (capacity + j * p.growth) = 0 := by
      rw [Nat.mul_comm j]
      omega
    have henough : (needed - capacity + (p.growth - 1)) / p.growth < j + 1 := by
      rw [Nat.div_lt_iff_lt_mul hpos, Nat.add_mul, Nat.mul_comm j]
      omega
    rw [hdone, Nat.div_eq_of_lt (by omega)]
    omega

theorem reach_of_le (h : needed ≤ capacity) : p.reach capacity needed = capacity := by
  rw [reach, stepsFor_of_le p h, Nat.zero_mul, Nat.add_zero]

theorem le_reach (capacity needed : Nat) : capacity ≤ p.reach capacity needed := Nat.le_add_right _ _

theorem reach_mono {more : Nat} (h : needed ≤ more) : p.reach capacity needed ≤ p.reach capacity more :=
  Nat.add_le_add_left (Nat.mul_le_mul_right _ (p.stepsFor_mono h)) _

/-- Behind some steps it takes those that are left of all. -/
theorem reach_add (capacity needed j : Nat) :
    p.reach (capacity + j * p.growth) needed =
      capacity + max j (p.stepsFor capacity needed) * p.growth := by
  rw [reach, stepsFor_add, Nat.add_assoc, ← Nat.add_mul]
  congr 2
  omega

theorem reach_step (h : capacity < needed) :
    p.reach (capacity + p.growth) needed = p.reach capacity needed := by
  have hpos := p.zero_lt_growth
  have hone : 1 ≤ p.stepsFor capacity needed := by
    unfold stepsFor
    rw [Nat.one_le_div_iff hpos]
    omega
  have hadd := p.reach_add capacity needed 1
  rw [Nat.one_mul, Nat.max_eq_right hone] at hadd
  exact hadd

/-- Room for more bytes can be made in two goes. -/
theorem reach_reach {more : Nat} (h : needed ≤ more) :
    p.reach (p.reach capacity needed) more = p.reach capacity more := by
  have hsteps : p.stepsFor capacity needed ≤ p.stepsFor capacity more := p.stepsFor_mono h
  have hadd := p.reach_add capacity more (p.stepsFor capacity needed)
  rwa [Nat.max_eq_right hsteps] at hadd

/-- Room for so many bytes takes less than one step too many. -/
theorem reach_le (capacity needed : Nat) : p.reach capacity needed ≤ max capacity (needed + p.growth) := by
  have hpos := p.zero_lt_growth
  rcases Nat.le_total needed capacity with hle | hle
  · rw [reach_of_le p hle]
    omega
  · have hsteps : p.stepsFor capacity needed * p.growth ≤ needed - capacity + (p.growth - 1) :=
      Nat.div_mul_le_self _ _
    unfold reach
    omega

/-- However many steps have been made, it is the same capacity that is too large. -/
theorem excess_add {j : Nat} (h : capacity + j * p.growth ≤ p.limit) :
    p.excess (capacity + j * p.growth) = p.excess capacity := by
  have hpos := p.zero_lt_growth
  have hmade : j ≤ (p.limit - capacity) / p.growth := by
    rw [Nat.le_div_iff_mul_le hpos]
    omega
  have hleft : (p.limit - (capacity + j * p.growth)) / p.growth = (p.limit - capacity) / p.growth - j := by
    rw [← Nat.sub_sub, Nat.mul_comm j, Nat.sub_mul_div]
  have hall : j + ((p.limit - capacity) / p.growth - j + 1) = (p.limit - capacity) / p.growth + 1 := by
    omega
  unfold excess
  rw [hleft, Nat.add_assoc capacity, ← Nat.add_mul, hall]

theorem excess_reach (h : p.reach capacity needed ≤ p.limit) :
    p.excess (p.reach capacity needed) = p.excess capacity := p.excess_add h

end Pool

namespace Scratch

variable {b : Scratch} {p : Pool}

theorem IsOf.capacity_le (hb : b.IsOf p) : b.capacity ≤ p.limit := by
  rw [← hb.limit_eq]
  exact b.capacity_le

section

variable (hp : p.IsAmple) (hb : b.IsOf p)

include hp hb

/-- One step is made, or it goes beyond the limit. -/
theorem grow_cases :
    (b.capacity + p.growth ≤ p.limit ∧ ∃ grown, b.grow = .ok grown) ∨
      (p.limit < b.capacity + p.growth ∧ b.grow = .error (p.excess b.capacity)) := by
  rcases Nat.lt_or_ge p.limit (b.capacity + p.growth) with hlt | hle
  · refine .inr ⟨hlt, ?_⟩
    have hblock := hp.1
    have hcapacity := hb.capacity_le
    have hlast : (p.limit - b.capacity) / p.growth = 0 := Nat.div_eq_of_lt (by omega)
    have hover : b.limit < Size.add b.capacity b.growth := by
      rw [hb.limit_eq, hb.growth_eq]
      simp only [Size.add, Size.maxBlock, Size.top] at *
      omega
    rw [grow_eq_dite, Pool.excess, dif_pos hover, hb.limit_eq, hb.growth_eq, hlast, Nat.zero_add, Nat.one_mul]
    rfl
  · exact .inl ⟨hle, exists_grow hp hb hle⟩

omit hp in
theorem capacity_of_grow {grown : Scratch} (h : b.grow = .ok grown) :
    grown.capacity = b.capacity + p.growth := by
  rw [(eq_of_grow h).2.2.1, hb.growth_eq]

end

/-- How often the buffer can still grow. -/
def stepsLeft (b : Scratch) : Nat := (b.limit - b.capacity) / b.growth

theorem stepsLeft_of_grow {b grown : Scratch} (h : b.grow = .ok grown) : grown.stepsLeft + 1 = b.stepsLeft := by
  obtain ⟨-, -, hcapacity, hgrowth, hlimit, -⟩ := eq_of_grow h
  have hwithin := grown.capacity_le
  rw [hcapacity, hlimit] at hwithin
  unfold stepsLeft
  rw [hgrowth, hlimit, hcapacity, div_sub_step b.growth_pos hwithin]

/-- The fewest steps are made after which so many bytes fit, or they go beyond the limit. -/
theorem growFor_cases (hp : p.IsAmple) (hb : b.IsOf p) (n : Nat) :
    (p.reach b.capacity (b.size + n) ≤ p.limit ∧ ∃ grown, b.growFor n = .ok grown ∧
        grown.capacity = p.reach b.capacity (b.size + n)) ∨
      (p.limit < p.reach b.capacity (b.size + n) ∧ b.growFor n = .error (p.excess b.capacity)) := by
  fun_induction growFor b n with
  | case1 b hfits =>
    have hsize := b.size_le
    rw [room_eq] at hfits
    rw [p.reach_of_le (by omega)]
    exact .inl ⟨hb.capacity_le, b, rfl, rfl⟩
  | case2 b hfits e hgrow =>
    rw [room_eq] at hfits
    rcases grow_cases hp hb with ⟨-, grown, hok⟩ | ⟨hlt, hfails⟩
    · rw [hgrow] at hok
      cases hok
    · rw [hgrow] at hfails
      refine .inr ⟨?_, hfails⟩
      have hle := p.le_reach (b.capacity + p.growth) (b.size + n)
      rw [p.reach_step (by omega)] at hle
      omega
  | case3 b hfits grown hgrow ih =>
    rw [room_eq] at hfits
    obtain ⟨hof, hbytes, -⟩ := hb.of_grow hgrow
    have hcapacity := capacity_of_grow hb hgrow
    have hsize : grown.size = b.size := by rw [← length_bytes, hbytes, length_bytes]
    have hle : b.capacity + 1 * p.growth ≤ p.limit := by
      rw [Nat.one_mul, ← hcapacity]
      exact hof.capacity_le
    have hexcess := p.excess_add hle
    rw [Nat.one_mul] at hexcess
    have hall := ih hof
    rw [hsize, hcapacity, p.reach_step (by omega), hexcess] at hall
    exact hall

/-- There is room for so many bytes when one step beyond them is within the limit. -/
theorem exists_growFor (hp : p.IsAmple) (hb : b.IsOf p) {n : Nat} (h : b.size + n + p.growth ≤ p.limit) :
    ∃ grown, b.growFor n = .ok grown := by
  have hcapacity := hb.capacity_le
  have hreach := p.reach_le b.capacity (b.size + n)
  rcases growFor_cases hp hb n with ⟨-, grown, hgrown, -⟩ | ⟨hbeyond, -⟩
  · exact ⟨grown, hgrown⟩
  · omega

end Scratch

end SecureStream
