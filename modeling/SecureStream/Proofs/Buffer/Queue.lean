import SecureStream.Proofs.Buffer.Refusals

/-!
# A backlog is a bounded queue

Bytes are put in at the back of a backlog and dropped at its front, in any order and as often as one likes.  A
`Watch` is a backlog together with the queue that one expects of it: the bytes of every append that was
granted, less those that were dropped.  An append that fails counts for nothing, and the backlog that it leaves
behind is the one that was there (`Watch.act_append_of_error`).

The invariant is that the backlog holds this queue, within its capacity, its limit and one block of memory
(`Watch.Stands`).  Under it each append does what `Backlog.InRange.append_eq_error_iff` and
`Backlog.InRange.eq_of_append` say: it fails for one of two reasons, or enlarges the capacity by the fewest steps
that are enough.  The capacity never gets smaller, also when bytes are dropped (`Watch.Stands.capacity_le_actAll`).
-/

namespace SecureStream

namespace Backlog

/-- What is done with a backlog. -/
inductive Action where
  | append (bytes : Bytes)
  | discard (n : Nat)

/-- What is appended lies in a block of memory itself. -/
def Action.IsInBlock : Action → Prop
  | append bytes => bytes.length ≤ Size.maxBlock
  | discard _ => True

/-- A backlog at work. -/
structure Watch where
  backlog : Backlog
  /-- The bytes that should wait there. -/
  queue : Bytes

namespace Watch

def act (watch : Watch) : Action → Watch
  | .append bytes =>
    match watch.backlog.tryAppend bytes with
    | (.error _, backlog) => { watch with backlog }
    | (.ok (), backlog) => ⟨backlog, watch.queue ++ bytes⟩
  | .discard n => ⟨watch.backlog.discard n, watch.queue.drop (min n watch.queue.length)⟩

def actAll (watch : Watch) (actions : List Action) : Watch := actions.foldl act watch

/-- The backlog holds what is expected, within its bounds. -/
structure Stands (watch : Watch) (p : Pool) : Prop where
  inRange : watch.backlog.InRange p
  bytes_eq : watch.backlog.bytes = watch.queue

variable {watch : Watch} {p : Pool} {action : Action} {actions : List Action}

theorem act_append_of_error {bytes : Bytes} {e : BufferError} (h : watch.backlog.append bytes = .error e) :
    watch.act (.append bytes) = watch := by
  rw [act, tryAppend_of_error h]

theorem act_append_of_ok {bytes : Bytes} {backlog : Backlog} (h : watch.backlog.append bytes = .ok backlog) :
    watch.act (.append bytes) = ⟨backlog, watch.queue ++ bytes⟩ := by
  rw [act, tryAppend_of_ok h]

theorem stands_of_ofBytes? {first : Bytes} {b : Backlog} (h : ofBytes? first p = .ok b) : Stands ⟨b, first⟩ p :=
  ⟨inRange_of_ofBytes? h, (isOf_of_ofBytes? h).2⟩

namespace Stands

variable (h : watch.Stands p)

include h

theorem act (haction : action.IsInBlock) : (watch.act action).Stands p := by
  cases action with
  | append bytes =>
    rcases happend : watch.backlog.append bytes with e | b
    · rw [act_append_of_error happend]
      exact h
    · rw [act_append_of_ok happend]
      refine ⟨h.inRange.append haction happend, ?_⟩
      rw [bytes_of_append happend, h.bytes_eq]
  | discard n =>
    refine ⟨h.inRange.withBytes ?_, ?_⟩
    · rw [List.length_drop]
      exact Nat.sub_le _ _
    · show watch.backlog.bytes.drop n = watch.queue.drop (min n watch.queue.length)
      rw [h.bytes_eq, List.drop_eq_drop_min]

theorem actAll (hactions : ∀ action ∈ actions, action.IsInBlock) : (watch.actAll actions).Stands p := by
  induction actions generalizing watch with
  | nil => exact h
  | cons action actions ih =>
    obtain ⟨haction, hrest⟩ := List.forall_mem_cons.1 hactions
    exact ih (h.act haction) hrest

theorem capacity_le_act (hlimit : p.limit ≤ Size.top) (haction : action.IsInBlock) :
    watch.backlog.capacity ≤ (watch.act action).backlog.capacity := by
  cases action with
  | append bytes =>
    rcases happend : watch.backlog.append bytes with e | b
    · exact Nat.le_of_eq (by rw [act_append_of_error happend])
    · rw [act_append_of_ok happend, h.inRange.eq_of_append hlimit haction happend]
      exact Pool.le_enlarged h.inRange.isOf.capacity_le
  | discard n => exact Nat.le_refl watch.backlog.capacity

theorem capacity_le_actAll (hlimit : p.limit ≤ Size.top) (hactions : ∀ action ∈ actions, action.IsInBlock) :
    watch.backlog.capacity ≤ (watch.actAll actions).backlog.capacity := by
  induction actions generalizing watch with
  | nil => exact Nat.le_refl _
  | cons action actions ih =>
    obtain ⟨haction, hrest⟩ := List.forall_mem_cons.1 hactions
    exact Nat.le_trans (h.capacity_le_act hlimit haction) (ih (h.act haction) hrest)

end Stands

end Watch

/-- Whatever is put into a backlog and dropped from it, it holds the bytes of a queue, and no more of them than its
capacity, which stays within the limit and never gets smaller.  It starts with one step of room to spare, up to the
limit.  An append for which there is room leaves the capacity as it is, and any other enlarges it by the fewest
steps that are enough, up to the limit: `j` is the number of these steps.  Making a backlog and appending fail just
when the bytes would exceed the limit, or else when a new capacity exceeds every block of memory, and the backlog
that a failed append gives back is the old one. -/
theorem stands_for_queue {p : Pool} (hlimit : p.limit ≤ Size.top) (first : Bytes) :
    let start := min (first.length + p.growth) p.limit
    (∀ e, ofBytes? first p = .error e ↔ p.Refuses first.length start start e) ∧
      ∀ b, ofBytes? first p = .ok b → b.bytes = first ∧ b.capacity = start ∧
        ∀ actions, (∀ action ∈ actions, action.IsInBlock) →
          let watch := Watch.actAll ⟨b, first⟩ actions
          let now := watch.backlog
          let queue := watch.queue
          now.bytes = queue ∧ queue.length ≤ now.capacity ∧ now.capacity ≤ p.limit ∧
            (∀ more, (∀ action ∈ more, action.IsInBlock) →
              now.capacity ≤ (watch.actAll more).backlog.capacity) ∧
            ∀ bytes, bytes.length ≤ Size.maxBlock →
              let needed := queue.length + bytes.length
              let grown := p.enlarged now.capacity needed
              (needed ≤ p.limit → ∃ j, grown = min (now.capacity + j * p.growth) p.limit ∧
                ∀ i, needed ≤ min (now.capacity + i * p.growth) p.limit ↔ j ≤ i) ∧
              (∀ e, now.append bytes = .error e ↔
                now.capacity < needed ∧ p.Refuses needed grown (grown - queue.length) e) ∧
              (∀ e, now.append bytes = .error e →
                now.tryAppend bytes = (.error e, now) ∧ watch.act (.append bytes) = watch) ∧
              ∀ larger, now.append bytes = .ok larger →
                now.tryAppend bytes = (.ok (), larger) ∧ larger.bytes = queue ++ bytes ∧ larger.capacity = grown := by
  intro start
  refine ⟨fun e => ofBytes?_eq_error_iff hlimit, fun b hb => ?_⟩
  obtain ⟨hfirst, hstart⟩ := ofBytes?_eq_ok hlimit hb
  refine ⟨hfirst, hstart, fun actions hactions => ?_⟩
  intro watch now queue
  have h : watch.Stands p := (Watch.stands_of_ofBytes? hb).actAll hactions
  have hqueue : now.bytes = queue := h.bytes_eq
  have hlength : queue.length ≤ now.capacity := hqueue ▸ h.inRange.isOf.length_le
  refine ⟨hqueue, hlength, h.inRange.isOf.capacity_le, fun more hmore => h.capacity_le_actAll hlimit hmore,
    fun bytes hbytes => ?_⟩
  intro needed grown
  have hneeded : now.bytes.length + bytes.length = needed := by rw [hqueue]
  refine ⟨Pool.exists_steps, fun e => ?_, fun e he => ⟨tryAppend_of_error he, Watch.act_append_of_error he⟩,
    fun larger hlarger => ?_⟩
  · have hiff := h.inRange.append_eq_error_iff (e := e) hlimit hbytes
    rwa [hneeded, hqueue] at hiff
  · have heq : larger = _ := h.inRange.eq_of_append hlimit hbytes hlarger
    rw [hneeded, hqueue] at heq
    refine ⟨tryAppend_of_ok hlarger, ?_⟩
    rw [heq]
    exact ⟨rfl, rfl⟩

/-- Four bytes in a backlog that grows in steps of four bytes up to 15.  It has room for eight at first and for all 15
after two steps, the last of which is cut off at the limit.  Of the 13 bytes that are in it then, seven are dropped,
and two more are put in.  Another eight would be one too many, and the backlog stays as it is. -/
theorem stands_for_queue_up_to_limit :
    let p : Pool := ⟨⟨4, 1024, 50, 3, 15, by decide, by decide⟩, ⟨1000⟩⟩
    let first : Bytes := [1, 2, 3, 4]
    let b : Backlog := ⟨first, 8, 4, 15, ⟨1000⟩, by decide⟩
    let actions : List Action := [.append [5, 6, 7, 8, 9, 9, 9, 9, 9], .discard 7, .append [3, 3]]
    let watch := Watch.actAll ⟨b, first⟩ actions
    ofBytes? first p = .ok b ∧ watch.queue = [8, 9, 9, 9, 9, 9, 3, 3] ∧ watch.backlog.bytes = watch.queue ∧
      watch.backlog.capacity = 15 ∧
      watch.backlog.tryAppend [0, 0, 0, 0, 0, 0, 0, 0] = (.error (.overLimit 16 15), watch.backlog) := by
  intro p first b actions
  have hb : ofBytes? first p = .ok b := rfl
  have hactions : ∀ action ∈ actions, action.IsInBlock := by
    simp [actions, Action.IsInBlock, Size.maxBlock]
  have hqueue : (Watch.actAll ⟨b, first⟩ actions).queue = [8, 9, 9, 9, 9, 9, 3, 3] := by decide +kernel
  have hcapacity : (Watch.actAll ⟨b, first⟩ actions).backlog.capacity = 15 := by decide +kernel
  obtain ⟨-, hmade⟩ := stands_for_queue (p := p) (by decide) first
  obtain ⟨-, -, hrun⟩ := hmade b hb
  obtain ⟨hbytes, -, -, -, happend⟩ := hrun actions hactions
  obtain ⟨-, hfails, hkept, -⟩ := happend [0, 0, 0, 0, 0, 0, 0, 0] (by decide)
  rw [hqueue, hcapacity] at hfails
  have hover := (hfails (.overLimit 16 15)).2 ⟨by decide, .overLimit (by decide)⟩
  exact ⟨hb, hqueue, hbytes, hcapacity, (hkept _ hover).1⟩

end Backlog

end SecureStream
