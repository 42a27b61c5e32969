import SecureStream.Proofs.Channel.Gate
import SecureStream.Proofs.Channel.Marks

/-!
# Slices

Which slices does a link hand to its engine?  Every function on links has calls that are given the slices that
marks tell (`Link.Marked`), from whatever marks it begins.  What a function leaves of its input is what stands
behind the cursor that it leaves (`Link.marked_read`), and what it hands over is as long as the fill mark says.

`Scratch.Shows` ties a buffer to the marks: after a reply its fill mark has moved by the arithmetic of sizes
(`Scratch.Shows.size_store`), and it shows the marks again when it has grown (`Scratch.Shows.grow`).
-/

namespace SecureStream

/-! ### Buffers -/

namespace Scratch

variable {d : Supply} {g : Marks} {b grown : Scratch} {r : Reply}

/-- The buffer is the one that the marks tell of. -/
structure Shows (b : Scratch) (d : Supply) (g : Marks) : Prop where
  isOf : b.IsOf d.pool
  capacity_eq : b.capacity = g.capacity
  size_eq : b.size = g.filled
  block : b.capacity ≤ Size.maxBlock

theorem shows_of_ofCapacity? {capacity : Nat} (h : ofCapacity? capacity d.pool = .ok b) :
    b.Shows d (g.renew capacity) := by
  obtain ⟨hof, hsize, hcapacity⟩ := isOf_of_ofCapacity? h
  unfold ofCapacity? at h
  split at h
  · cases h
  · obtain ⟨-, hblock, -⟩ := Memory.reserve_eq_ok_iff.1 h
    exact ⟨hof, hcapacity, hsize, by omega⟩

theorem block_of_grow (h : b.grow = .ok grown) : grown.capacity ≤ Size.maxBlock := by
  have hcapacity := (eq_of_grow h).2.2.1
  rw [grow_eq_dite] at h
  split at h
  · cases h
  · obtain ⟨-, hblock, -⟩ := Memory.reserve_eq_ok_iff.1 h
    rw [hcapacity]
    exact hblock

namespace Shows

/-- Only the marks of the buffer matter. -/
theorem of_eq (h : b.Shows d g) (g' : Marks) (hcapacity : g'.capacity = g.capacity)
    (hfilled : g'.filled = g.filled) : b.Shows d g' :=
  ⟨h.isOf, h.capacity_eq.trans hcapacity.symm, h.size_eq.trans hfilled.symm, h.block⟩

theorem room_eq (h : b.Shows d g) : b.room = g.capacity - g.filled := by
  rw [Scratch.room_eq, h.capacity_eq, h.size_eq]

/-- The fill mark is moved by the arithmetic of sizes, and stops at the end of the buffer. -/
theorem size_store (h : b.Shows d g) (r : Reply) :
    (b.store r.output r.produced).size = min (Size.add g.filled r.produced) g.capacity := by
  have hle := b.size_le
  have hblock := h.block
  rw [Scratch.size_store, ← h.size_eq, ← h.capacity_eq]
  simp only [Size.add, Size.maxBlock, Size.top] at *
  omega

theorem fill (h : b.Shows d g) (hverdict : r.verdict ≠ .overflow) :
    (b.store r.output r.produced).Shows d (g.fill d r) := by
  refine ⟨h.isOf.store _ _, ?_, h.size_store r, h.block⟩
  show b.capacity = if _ then _ else g.capacity
  rw [if_neg fun hgrown => hverdict hgrown.1, h.capacity_eq]

theorem grow (h : b.Shows d g) (hverdict : r.verdict = .overflow)
    (hgrow : (b.store r.output r.produced).grow = .ok grown) : grown.Shows d (g.fill d r) := by
  obtain ⟨hof, hbytes, -⟩ := (h.isOf.store r.output r.produced).of_grow hgrow
  obtain ⟨-, -, hcapacity, -⟩ := eq_of_grow hgrow
  have hblock := block_of_grow hgrow
  have hgrown : grown.capacity = g.capacity + d.pool.growth := by
    rw [hcapacity, capacity_store, h.capacity_eq]
    exact congrArg _ h.isOf.growth_eq
  have hadd : Size.add g.capacity d.pool.growth = g.capacity + d.pool.growth :=
    Size.add_eq (by simp only [Size.maxBlock, Size.top] at *; omega)
  have hlimit : Size.add g.capacity d.pool.growth ≤ d.pool.limit := by
    rw [hadd, ← hgrown, ← hof.limit_eq]
    exact grown.capacity_le
  refine ⟨hof, ?_, ?_, hblock⟩
  · show grown.capacity = if _ then _ else _
    rw [if_pos ⟨hverdict, hlimit⟩, hadd, hgrown]
  · exact (congrArg List.length hbytes).trans (h.size_store r)

theorem clear (h : b.Shows d g) : b.clear.Shows d g.free :=
  ⟨h.isOf.clear, h.capacity_eq, rfl, h.block⟩

end Shows

end Scratch

/-! ### Links -/

namespace Link

variable {E S : Type} [Engine E] [Session S] {d : Supply} {g g' g'' : Marks} {k k' k'' : Link E S}

omit [Engine E] in
/-- The link has become another with calls that lead the marks to others. -/
def Marked (d : Supply) (g : Marks) (k k' : Link E S) (g' : Marks) : Prop :=
  ∃ calls, Made calls k k' ∧ Marks.Logs d g calls g'

omit [Engine E] in
theorem Marked.refl (d : Supply) (g : Marks) (k : Link E S) : Marked d g k k g :=
  ⟨[], ⟨(List.append_nil _).symm, rfl⟩, .nil g⟩

omit [Engine E] in
theorem Marked.trans (h : Marked d g k k' g') (h' : Marked d g' k' k'' g'') : Marked d g k k'' g'' := by
  obtain ⟨a, hmade, ha⟩ := h
  obtain ⟨b, hmade', hb⟩ := h'
  exact ⟨a ++ b, hmade.trans hmade', ha.append hb⟩

omit [Engine E] in
/-- A new buffer is taken before anything is done. -/
theorem Marked.renew {capacity : Nat} (hroom : g.FirstRoom d capacity)
    (h : Marked d (g.renew capacity) k k' g') : Marked d g k k' g' := by
  obtain ⟨calls, hmade, hlogs⟩ := h
  exact ⟨calls, hmade, .renew hroom hlogs⟩

omit [Engine E] in
theorem Made.marked {call : Call} (h : Made [call] k k') (hgives : g.Gives d call) :
    Marked d g k k' (g.after d call) := ⟨[call], h, .call hgives (.nil _)⟩

omit [Engine E] in
theorem Makes.marked {kinds : List CallKind} (h : Makes kinds k k') (g : Marks)
    (hkinds : .wrap ∉ kinds ∧ .unwrap ∉ kinds ∧ .enqueue ∉ kinds ∧ .deliver ∉ kinds) : Marked d g k k' g := by
  obtain ⟨calls, hmade, hcalls⟩ := h
  exact ⟨calls, hmade, Marks.logs_of_kinds hcalls hkinds⟩

omit [Engine E] in
theorem marked_note (k : Link E S) (notice : Notice) (g : Marks) : Marked d g k (k.note notice) g :=
  ⟨[], ⟨(List.append_nil _).symm, rfl⟩, .nil g⟩

theorem marked_wrap {input : Bytes} {b : Scratch} {answer : Except EngineError Reply}
    (h : k.wrap input b.room = (answer, k')) (hinput : input = d.message.drop g.offset) (hb : b.Shows d g) :
    Marked d g k k' (g.after d (.wrap input b.room answer)) :=
  (made_wrap h).marked ⟨hinput, hb.room_eq⟩

theorem marked_unwrap {input : Bytes} {b : Scratch} {answer : Except EngineError Reply}
    (h : k.unwrap input b.room = (answer, k')) (hinput : input = d.pending.drop g.cursor) (hb : b.Shows d g) :
    Marked d g k k' (g.after d (.unwrap input b.room answer)) :=
  (made_unwrap h).marked ⟨hinput, hb.room_eq⟩

omit [Engine E] in
theorem marked_enqueue (k : Link E S) {piece : Bytes} (h : piece.length = g.filled) :
    Marked d g k (k.enqueue piece) g := by
  have hmade : Made [.enqueue piece] k (k.enqueue piece) := made_of_push rfl rfl
  exact hmade.marked h

/-- The rest behind a mark that has moved. -/
private theorem drop_mark {l : Bytes} (hl : l.length ≤ Size.top) (mark moved : Nat) :
    (l.drop mark).drop moved = l.drop (min (Size.add mark moved) l.length) := by
  rw [List.drop_drop]
  rcases Nat.le_total (mark + moved) l.length with hle | hle
  · have hadd : Size.add mark moved = mark + moved := Size.add_eq (Nat.le_trans hle hl)
    rw [hadd, Nat.min_eq_left hle]
  · have hpast : l.length ≤ Size.add mark moved := Nat.le_min.2 ⟨hle, hl⟩
    rw [Nat.min_eq_right hpast, List.drop_length, List.drop_of_length_le hle]

/-- What is left of a message after a reply. -/
private theorem left_wrap {input : Bytes} (hinput : input = d.message.drop g.offset) (room : Nat) (r : Reply) :
    input.drop r.consumed = d.message.drop (g.after d (.wrap input room (.ok r))).offset := by
  rw [hinput]
  exact drop_mark d.message_le _ _

/-- What is left of the input after a reply. -/
private theorem left_unwrap {input : Bytes} (hinput : input = d.pending.drop g.cursor) (room : Nat) (r : Reply) :
    input.drop r.consumed = d.pending.drop (g.after d (.unwrap input room (.ok r))).cursor := by
  rw [hinput]
  exact drop_mark d.pending_le _ _

/-! ### Output -/

theorem marked_wrapAll (purpose : Purpose) (k : Link E S) (input : Bytes) (b : Scratch) (g : Marks)
    (hinput : input = d.message.drop g.offset) (hb : b.Shows d g) :
    ∃ g', Marked d g k (k.wrapAll purpose input b).2 g' ∧ g'.cursor = g.cursor ∧
      ∀ b' demand, (k.wrapAll purpose input b).1 = .ok (b', demand) → b'.size = g'.filled := by
  fun_induction wrapAll purpose k input b generalizing g with
  | case3 k input b r after hwrap filled hverdict grown hgrow ih =>
    have hfirst := marked_wrap hwrap hinput hb
    have hgrown := (hb.grow hverdict hgrow).of_eq (g.after d (.wrap input b.room (.ok r))) rfl rfl
    obtain ⟨g', hmarked, hcursor, hfilled⟩ := ih _ (left_wrap hinput b.room r) hgrown
    exact ⟨g', hfirst.trans ((marked_note ..).trans hmarked), hcursor, hfilled⟩
  | case6 k input b r after hwrap filled hverdict hrest hconsumed ih =>
    have hfirst := marked_wrap hwrap hinput hb
    have hfilled := (hb.fill (by rw [hverdict]; decide)).of_eq (g.after d (.wrap input b.room (.ok r))) rfl rfl
    obtain ⟨g', hmarked, hcursor, hsize⟩ := ih _ (left_wrap hinput b.room r) hfilled
    exact ⟨g', hfirst.trans hmarked, hcursor, hsize⟩
  | case4 k input b r after hwrap | case8 k input b r after hwrap =>
    refine ⟨_, marked_wrap hwrap hinput hb, rfl, ?_⟩
    rintro _ _ ⟨⟩
    exact hb.size_store r
  | _ => exact ⟨_, marked_wrap ‹_› hinput hb, rfl, fun _ _ h => by cases h⟩

/-- Wrapping into a new buffer. -/
theorem marked_wrapNew (purpose : Purpose) {capacity : Nat} (k : Link E S) (g : Marks)
    (hroom : g.FirstRoom d capacity) :
    ∃ g', Marked d g k (k.wrapNew d.pool purpose capacity d.message).2 g' ∧ g'.cursor = g.cursor ∧
      ∀ output demand, (k.wrapNew d.pool purpose capacity d.message).1 = .ok (output, demand) →
        output.length = g'.filled := by
  rw [wrapNew_eq_bytes]
  rcases hnew : Scratch.ofCapacity? capacity d.pool with e | b
  · exact ⟨g, .refl d g k, rfl, nofun⟩
  · obtain ⟨g', hmarked, hcursor, hsize⟩ := k.marked_wrapAll purpose d.message b (g.renew capacity)
      List.drop_zero.symm (Scratch.shows_of_ofCapacity? hnew)
    refine ⟨g', ?_, hcursor, ?_⟩
    · dsimp only
      split <;> (next heq => rw [heq] at hmarked; exact hmarked.renew hroom)
    · dsimp only
      split
      · nofun
      · next heq =>
        rintro _ _ ⟨⟩
        rw [heq] at hsize
        exact hsize _ _ rfl

theorem marked_write (k : Link E S) (g : Marks) :
    ∃ g', Marked d g k (k.write d.pool d.message).2 g' := by
  obtain ⟨g', hmarked, -, hlength⟩ := k.marked_wrapNew .application g (.ciphertext (d := d))
  unfold write
  rcases hwrap : k.wrapNew d.pool .application (d.pool.ciphertextRoom d.message.length) d.message with
    ⟨e | ⟨piece, demand⟩, after⟩
  · rw [hwrap] at hmarked
    exact ⟨g', hmarked⟩
  · rw [hwrap] at hmarked hlength
    refine ⟨g', (hmarked.trans (marked_note ..)).trans (marked_enqueue _ ?_)⟩
    exact hlength piece demand rfl

theorem marked_fetchOutput (hnone : d.message = []) (k : Link E S) (g : Marks) :
    ∃ g', Marked d g k (k.fetchOutput d.pool).2 g' ∧ g'.cursor = g.cursor := by
  obtain ⟨g', hmarked, hcursor, hlength⟩ :=
    k.marked_wrapNew .handshake g (.output (d := d) (Engine.largestRecord k.engine))
  rw [hnone] at hmarked hlength
  unfold fetchOutput
  rcases hwrap : k.wrapNew d.pool .handshake (d.pool.cap (Engine.largestRecord k.engine)) [] with
    ⟨e | ⟨output, demand⟩, after⟩
  · rw [hwrap] at hmarked
    exact ⟨g', hmarked, hcursor⟩
  · rw [hwrap] at hmarked hlength
    refine ⟨g', ?_, hcursor⟩
    dsimp only
    split
    · exact hmarked
    · exact hmarked.trans (marked_enqueue _ (hlength output demand rfl))

theorem marked_sendClosing (hnone : d.message = []) (k : Link E S) (count : Nat) (g : Marks) :
    ∃ g', Marked d g k (k.sendClosing d.pool count).2 g' := by
  have hnew : ∀ (k : Link E S) (g : Marks), ∃ g', Marked d g k
      (k.wrapNew d.pool .close (d.pool.cap (Engine.largestRecord k.engine)) []).2 g' ∧ ∀ output demand,
        (k.wrapNew d.pool .close (d.pool.cap (Engine.largestRecord k.engine)) []).1 = .ok (output, demand) →
          output.length = g'.filled := by
    intro k g
    obtain ⟨g', hmarked, -, hlength⟩ :=
      k.marked_wrapNew .close g (.output (d := d) (Engine.largestRecord k.engine))
    rw [hnone] at hmarked hlength
    exact ⟨g', hmarked, hlength⟩
  fun_induction sendClosing d.pool k count generalizing g with
  | case1 k count hover => exact ⟨g, .refl d g k⟩
  | case2 k count hopen e after hwrap | case3 k count hopen output demand after hwrap
  | case4 k count hopen output demand after hwrap =>
    obtain ⟨g', hmarked, -⟩ := hnew k g
    rw [hwrap] at hmarked
    exact ⟨g', hmarked⟩
  | case5 k count hopen output demand after hwrap hempty ih =>
    obtain ⟨g', hmarked, hlength⟩ := hnew k g
    rw [hwrap] at hmarked hlength
    obtain ⟨g'', hrest⟩ := ih g'
    exact ⟨g'', (hmarked.trans (marked_enqueue _ (hlength output demand rfl))).trans hrest⟩

theorem marked_answerClose (hnone : d.message = []) (k : Link E S) (demand : Demand) (g : Marks) :
    ∃ g', Marked d g k (k.answerClose d.pool demand).2 g' := by
  unfold answerClose
  dsimp only
  split
  · have hmoved : Marked d g k ((k.note (.closeReceived demand)).moveTo .connected) g :=
      (marked_note ..).trans ((makes_moveTo _ .connected).marked g (by simp))
    obtain ⟨g', hsent⟩ :=
      marked_sendClosing hnone ((k.note (.closeReceived demand)).moveTo .connected) 0 g
    rcases hwrap : ((k.note (.closeReceived demand)).moveTo .connected).sendClosing d.pool 0 with
      ⟨e | count, after⟩
    · rw [hwrap] at hsent
      exact ⟨g', hmoved.trans hsent⟩
    · rw [hwrap] at hsent
      exact ⟨g', hmoved.trans (hsent.trans (marked_note ..))⟩
  · exact ⟨g, marked_note ..⟩

/-! ### Input -/

theorem marked_unwrapStep (k : Link E S) (input : Bytes) (b : Scratch) (g : Marks)
    (hinput : input = d.pending.drop g.cursor) (hb : b.Shows d g) :
    ∃ g', Marked d g k (k.unwrapStep input b).2 g' ∧ ∀ next left, (k.unwrapStep input b).1 = .ok (next, left) →
      left = d.pending.drop g'.cursor := by
  fun_induction unwrapStep k input b generalizing g with
  | case3 k input b r after hunwrap rest | case4 k input b r after hunwrap rest =>
    refine ⟨_, marked_unwrap hunwrap hinput hb, ?_⟩
    rintro _ _ ⟨⟩
    exact left_unwrap hinput b.room r
  | case6 k input b r after hunwrap rest filled hverdict grown hgrow ih =>
    have hfirst := marked_unwrap hunwrap hinput hb
    have hgrown := (hb.grow hverdict hgrow).of_eq (g.after d (.unwrap input b.room (.ok r))) rfl rfl
    obtain ⟨g', hmarked, hleft⟩ := ih _ (left_unwrap hinput b.room r) hgrown
    exact ⟨g', hfirst.trans hmarked, hleft⟩
  | _ => exact ⟨_, marked_unwrap ‹_› hinput hb, fun _ _ h => by cases h⟩

theorem marked_bringInput (k : Link E S) (input : Bytes) (g : Marks)
    (hinput : input = d.pending.drop g.cursor) :
    ∃ g', Marked d g k (k.bringInput d.pool input).2 g' ∧
      ∀ next left, (k.bringInput d.pool input).1 = .ok (next, left) → left = d.pending.drop g'.cursor := by
  unfold bringInput
  rcases hnew : Scratch.ofCapacity? (d.pool.cap d.pool.handshakeRoom) d.pool with e | b
  · exact ⟨g, .refl d g k, nofun⟩
  · obtain ⟨g', hmarked, hleft⟩ := k.marked_unwrapStep input b (g.renew (d.pool.cap d.pool.handshakeRoom))
      hinput (Scratch.shows_of_ofCapacity? hnew)
    exact ⟨g', hmarked.renew .handshake, hleft⟩

theorem marked_shake (hnone : d.message = []) (runner : Runner) (total : Nat) (k : Link E S) (demand : Demand)
    (input : Bytes) (g : Marks) (hinput : input = d.pending.drop g.cursor) :
    ∃ g', Marked d g k (k.shake d.pool runner total demand input).2 g' ∧
      ∀ isDone left, (k.shake d.pool runner total demand input).1 = .ok (isDone, left) →
        left = d.pending.drop g'.cursor := by
  fun_induction shake d.pool runner total k demand input generalizing g with
  | case1 k input noted =>
    have hmoved : Makes [.moveTo .secured] noted { noted.moveTo .secured with handshaking := false } :=
      .of_push (.moveTo .secured) rfl rfl (by simp [Call.kind])
    refine ⟨g, (marked_note ..).trans ((hmoved.marked g (by simp)).trans (marked_note ..)), ?_⟩
    rintro _ _ ⟨⟩
    exact hinput
  | case2 k input e after noted htasks =>
    have hran := (noted.makes_runTasks runner).marked (d := d) g (by simp)
    rw [htasks] at hran
    exact ⟨g, (marked_note ..).trans hran, fun _ _ h => by cases h⟩
  | case3 k input next after noted htasks ih =>
    have hran := (noted.makes_runTasks runner).marked (d := d) g (by simp)
    rw [htasks] at hran
    obtain ⟨g', hmarked, hleft⟩ := ih g hinput
    exact ⟨g', (marked_note ..).trans (hran.trans hmarked), hleft⟩
  | case4 k input e after noted hfetch =>
    obtain ⟨g', hfetched, -⟩ := noted.marked_fetchOutput hnone g
    rw [hfetch] at hfetched
    exact ⟨g', (marked_note ..).trans hfetched, fun _ _ h => by cases h⟩
  | case5 k input next after noted hfetch ih =>
    obtain ⟨g', hfetched, hcursor⟩ := noted.marked_fetchOutput hnone g
    rw [hfetch] at hfetched
    obtain ⟨g'', hmarked, hleft⟩ := ih g' (hcursor ▸ hinput)
    exact ⟨g'', (marked_note ..).trans (hfetched.trans hmarked), hleft⟩
  | case6 k input e after noted hbring | case9 k input e after noted hbring =>
    obtain ⟨g', hbrought, -⟩ := noted.marked_bringInput input g hinput
    rw [hbring] at hbrought
    exact ⟨g', (marked_note ..).trans hbrought, fun _ _ h => by cases h⟩
  | case7 k input rest after noted hbring | case10 k input rest after noted hbring =>
    obtain ⟨g', hbrought, hleft⟩ := noted.marked_bringInput input g hinput
    rw [hbring] at hbrought hleft
    refine ⟨g', (marked_note ..).trans hbrought, ?_⟩
    rintro _ _ ⟨⟩
    exact hleft none rest rfl
  | case8 k input next rest after noted hbring ih | case11 k input next rest after noted hbring ih =>
    obtain ⟨g', hbrought, hleft⟩ := noted.marked_bringInput input g hinput
    rw [hbring] at hbrought hleft
    obtain ⟨g'', hmarked, hrest⟩ := ih g' (hleft (some next) rest rfl)
    exact ⟨g'', (marked_note ..).trans (hbrought.trans hmarked), hrest⟩

/-! ### Records -/

omit [Engine E] in
/-- Handing over a message frees the buffer. -/
theorem marked_handOver (k : Link E S) (consumed : Nat) (b : Scratch) (hb : b.Shows d g) :
    Marked d g k (k.handOver consumed b) g.free := by
  unfold handOver
  split
  · next hempty =>
    have hzero : g.filled = 0 := by
      rw [← hb.size_eq]
      exact congrArg List.length (Scratch.isEmpty_iff.1 hempty)
    have hfree : g.free = g := by rw [Marks.free, ← hzero]
    rw [hfree]
    exact .refl d g k
  · have hmade : Made [.deliver b.bytes] k ((k.deliver b.bytes).note (.recordUnwrapped consumed b.size)) :=
      made_of_push rfl rfl
    exact hmade.marked hb.size_eq

theorem marked_unwrapAll (hnone : d.message = []) (k : Link E S) (input : Bytes) (b : Scratch) (n : Nat)
    (g : Marks) (hinput : input = d.pending.drop g.cursor) (hb : b.Shows d g) :
    ∃ g', Marked d g k (k.unwrapAll d.pool input b n).2 g' ∧
      ∀ o left, (k.unwrapAll d.pool input b n).1 = .ok (o, left) → o ≠ .closed → left = d.pending.drop g'.cursor := by
  fun_induction unwrapAll d.pool k input b n generalizing g with
  | case3 k input b n r after hunwrap rest filled hverdict =>
    have hfilled := (hb.fill (by rw [hverdict]; decide)).of_eq (g.after d (.unwrap input b.room (.ok r))) rfl rfl
    have hserved := after.marked_handOver r.consumed filled hfilled
    refine ⟨_, (marked_unwrap hunwrap hinput hb).trans hserved, ?_⟩
    rintro _ _ ⟨⟩ -
    exact left_unwrap hinput b.room r
  | case4 k input b n r after hunwrap rest filled hverdict hprogress served hrest ih =>
    have hfilled := (hb.fill (by rw [hverdict]; decide)).of_eq (g.after d (.unwrap input b.room (.ok r))) rfl rfl
    have hserved := after.marked_handOver r.consumed filled hfilled
    obtain ⟨g', hmarked, hleft⟩ := ih (g.after d (.unwrap input b.room (.ok r))).free
      (left_unwrap hinput b.room r) hfilled.clear
    exact ⟨g', ((marked_unwrap hunwrap hinput hb).trans hserved).trans hmarked, hleft⟩
  | case5 k input b n r after hunwrap rest hverdict =>
    refine ⟨_, (marked_unwrap hunwrap hinput hb).trans (marked_note ..), ?_⟩
    rintro _ _ ⟨⟩ -
    exact left_unwrap hinput b.room r
  | case7 k input b n r after hunwrap rest filled hverdict grown hgrow ih =>
    have hgrown := (hb.grow hverdict hgrow).of_eq (g.after d (.unwrap input b.room (.ok r))) rfl rfl
    obtain ⟨g', hmarked, hleft⟩ := ih _ (left_unwrap hinput b.room r) hgrown
    exact ⟨g', (marked_unwrap hunwrap hinput hb).trans hmarked, hleft⟩
  | case8 k input b n r after hunwrap hverdict hopen e last hanswer =>
    obtain ⟨g', hclosed⟩ := marked_answerClose hnone after r.demand (g.after d (.unwrap input b.room (.ok r)))
    rw [hanswer] at hclosed
    exact ⟨g', (marked_unwrap hunwrap hinput hb).trans hclosed, fun _ _ h => by cases h⟩
  | case9 k input b n r after hunwrap rest hverdict hopen last hanswer =>
    obtain ⟨g', hclosed⟩ := marked_answerClose hnone after r.demand (g.after d (.unwrap input b.room (.ok r)))
    rw [hanswer] at hclosed
    refine ⟨g', (marked_unwrap hunwrap hinput hb).trans hclosed, ?_⟩
    rintro _ _ ⟨⟩ hopen
    exact absurd rfl hopen
  | _ => exact ⟨_, marked_unwrap ‹_› hinput hb, fun _ _ h => by cases h⟩

theorem marked_unwrapRecords (hnone : d.message = []) (k : Link E S) (input : Bytes) (g : Marks)
    (hinput : input = d.pending.drop g.cursor) :
    ∃ g', Marked d g k (k.unwrapRecords d.pool input).2 g' ∧
      ∀ o left, (k.unwrapRecords d.pool input).1 = .ok (o, left) → o ≠ .closed → left = d.pending.drop g'.cursor := by
  unfold unwrapRecords
  split
  · refine ⟨g, .refl d g k, ?_⟩
    rintro _ _ ⟨⟩ -
    exact hinput
  · have hlength : input.length = d.pending.length - g.cursor := by rw [hinput, List.length_drop]
    rw [hlength]
    rcases hnew : Scratch.ofCapacity? (d.pool.plaintextRoom (d.pending.length - g.cursor)) d.pool with e | b
    · exact ⟨g, .refl d g k, nofun⟩
    · obtain ⟨g', hmarked, hleft⟩ := marked_unwrapAll hnone k input b 0
        (g.renew (d.pool.plaintextRoom (d.pending.length - g.cursor))) hinput (Scratch.shows_of_ofCapacity? hnew)
      exact ⟨g', hmarked.renew .plaintext, hleft⟩

/-! ### Requests -/

omit [Engine E] in
theorem marked_enterHandshake (k : Link E S) (g : Marks) : Marked d g k k.enterHandshake g :=
  k.makes_enterHandshake.marked g (by simp)

theorem marked_start (hnone : d.message = []) (hidle : d.pending = []) (runner : Runner) (k : Link E S)
    (g : Marks) : ∃ g', Marked d g k (k.start d.pool runner).2 g' := by
  unfold start
  split
  · exact ⟨g, .refl d g k⟩
  · have hstarted : Makes [.startHandshake] k k.startHandshake.2 :=
      .of_push .startHandshake rfl rfl (by simp [Call.kind])
    rcases hcall : k.startHandshake with ⟨e | ⟨⟩, after⟩
    · rw [hcall] at hstarted
      exact ⟨g, hstarted.marked g (by simp)⟩
    · rw [hcall] at hstarted
      have hentered : Marked d g k after.enterHandshake g :=
        (hstarted.marked g (by simp)).trans (after.marked_enterHandshake g)
      obtain ⟨g', hshook, -⟩ := marked_shake hnone runner 0 after.enterHandshake after.enterHandshake.demand []
        g (by rw [hidle, List.drop_nil])
      refine ⟨g', hentered.trans ?_⟩
      dsimp only
      split <;> (next heq => rwa [heq] at hshook)

theorem marked_read (hnone : d.message = []) (runner : Runner) (k : Link E S) (g : Marks)
    (hstart : d.pending = d.pending.drop g.cursor) :
    ∃ g', Marked d g k (k.read d.pool runner d.pending).2 g' ∧
      ∀ o left, (k.read d.pool runner d.pending).1 = .ok (o, left) → o ≠ .closed → left = d.pending.drop g'.cursor := by
  unfold read
  split
  · exact marked_unwrapRecords hnone k d.pending g hstart
  · obtain ⟨g', hshook, hleft⟩ := marked_shake hnone runner d.pending.length k.enterHandshake
      k.enterHandshake.demand d.pending g hstart
    have hall := (k.marked_enterHandshake g).trans hshook
    unfold readSecuring
    dsimp only
    rcases hshake : k.enterHandshake.shake d.pool runner d.pending.length k.enterHandshake.demand d.pending with
      ⟨e | ⟨_ | _, left⟩, after⟩
    · rw [hshake] at hall
      exact ⟨g', hall, nofun⟩
    · rw [hshake] at hall hleft
      refine ⟨g', hall, ?_⟩
      rintro _ _ ⟨⟩ -
      exact hleft false left rfl
    · rw [hshake] at hall hleft
      obtain ⟨g'', hrecords, hrest⟩ := marked_unwrapRecords hnone after left g' (hleft true left rfl)
      dsimp only
      rcases hunwrapped : after.unwrapRecords d.pool left with ⟨e | ⟨o, last⟩, final⟩
      · rw [hunwrapped] at hrecords
        exact ⟨g'', hall.trans hrecords, nofun⟩
      · rw [hunwrapped] at hrecords hrest
        cases o with
        | closed =>
          refine ⟨g'', hall.trans hrecords, ?_⟩
          rintro _ _ ⟨⟩ hopen
          exact absurd rfl hopen
        | _ =>
          refine ⟨g'', hall.trans hrecords, ?_⟩
          rintro _ _ ⟨⟩ -
          exact hrest _ last rfl nofun

end Link

end SecureStream
