import SecureStream.Engine.Playback
import SecureStream.Proofs.Channel.Slices
import SecureStream.Session.Journal

/-!
# Limits hold

An engine is not trusted.  Whatever it says that it has consumed and produced, nothing that a channel hands to
it, to its session or to the next request is longer than the limit of its pool, and every slice is taken in
range (`Channel.limits_hold`).

* (a) The calls of a request are given the slices that the marks tell (`Channel.logs_handle`).
* (b) What waits for more input is in range (`Channel.Waits`): every request keeps that
  (`Channel.Waits.handle`), and so does a history (`Channel.Waits.handleAll`).
-/

namespace SecureStream

/-! ### Requests -/

namespace Request

/-- The bytes that a request comes with. -/
def payload : Request → Bytes
  | receive input => input
  | send message => message
  | _ => []

/-- What a request has wrapped. -/
def message : Request → Bytes
  | send message => message
  | _ => []

theorem length_message_le (request : Request) : request.message.length ≤ request.payload.length := by
  cases request <;> simp [message, payload]

end Request

namespace Channel

variable {E S : Type} [Engine E] [Session S] {c : Channel E} {make : EngineMaker E} {s : S} {d : Supply}

/-- What is there before a request is served is not given any slice. -/
private theorem logs_serve {α : Type} (request : Link E S → Turn E S α)
    (hrequest : ∀ k : Link E S, ∃ k' g, Link.Marked d .start k k' g ∧ (request k).calls = k'.calls) :
    ∃ g, Marks.Logs d .start (c.serve make s request).calls.toList g := by
  rcases c.serve_makes make s with ⟨e, hfails⟩ | ⟨k, hmakes, -, hserve⟩
  · rw [hfails]
    exact ⟨.start, .call trivial (.nil _)⟩
  · obtain ⟨k', g, hmarked, hcalls⟩ := hrequest k
    obtain ⟨calls, hmade, hlogs⟩ := (hmakes.marked .start (by simp [prepareKinds])).trans hmarked
    have hlist : k'.calls.toList = calls := hmade.calls_eq
    rw [hserve, hcalls, hlist]
    exact ⟨g, hlogs⟩

variable (make s) in
/-- The calls of a request are given the slices that the marks tell. -/
theorem logs_handle {request : Request} (hpool : d.pool = c.pool) (hpending : d.pending = c.brings request)
    (hmessage : d.message = request.message) :
    ∃ g, Marks.Logs d .start (c.handle make s request).calls.toList g := by
  cases request with
  | prepare => exact logs_serve _ fun k => ⟨k, .start, .refl d _ k, rfl⟩
  | start =>
    refine logs_serve _ fun k => ?_
    obtain ⟨g, hstart⟩ := Link.marked_start hmessage hpending c.runner k .start
    rw [hpool] at hstart
    exact ⟨_, g, hstart, rfl⟩
  | receive input =>
    refine logs_serve _ fun k => ?_
    rcases hgather : gather c.backlog input with e | ⟨waiting, all⟩
    · exact ⟨k, .start, .refl d _ k, rfl⟩
    · obtain rfl : all = d.pending := (gather_ok hgather).trans hpending.symm
      obtain ⟨g, hread, -⟩ := Link.marked_read hmessage c.runner k .start List.drop_zero.symm
      rw [hpool] at hread
      refine ⟨_, g, hread, ?_⟩
      dsimp only
      rcases k.read c.pool c.runner d.pending with ⟨e | ⟨o, left⟩, after⟩
      · rfl
      · cases o with
        | closed => rfl
        | _ =>
          dsimp only
          split <;> rfl
  | send message =>
    show ∃ g, Marks.Logs d .start (c.send make s message).calls.toList g
    unfold send
    split
    · refine logs_serve _ fun k => ?_
      obtain ⟨g, hwrite⟩ := k.marked_write .start (d := d)
      rw [hpool, hmessage] at hwrite
      exact ⟨_, g, hwrite, rfl⟩
    · exact ⟨.start, .nil _⟩

/-! ### What waits -/

/-- The bytes that wait are in range. -/
def Waits (c : Channel E) : Prop := ∀ b, c.backlog = some b → b.InRange c.pool

omit [Engine E] in
theorem Waits.length_le (h : c.Waits) : c.pending.length ≤ Size.maxBlock := by
  unfold pending
  rcases hbacklog : c.backlog with _ | b
  · exact Nat.zero_le _
  · have hrange := h b hbacklog
    exact Nat.le_trans hrange.isOf.length_le hrange.block

omit [Engine E] in
private theorem gather_inRange (h : c.Waits) {input all : Bytes} {waiting : Option Backlog}
    (hinput : input.length ≤ Size.maxBlock) (hgather : gather c.backlog input = .ok (waiting, all)) :
    ∀ b, waiting = some b → b.InRange c.pool ∧ b.bytes = all := by
  rcases hbacklog : c.backlog with _ | b
  · rw [hbacklog] at hgather
    cases hgather
    nofun
  · rw [hbacklog] at hgather
    dsimp only [gather] at hgather
    rcases happend : b.append input with e | b'
    · rw [happend] at hgather
      cases hgather
    · rw [happend] at hgather
      cases hgather
      rintro _ ⟨⟩
      exact ⟨(h b hbacklog).append hinput happend, rfl⟩

private theorem retain_inRange {pool : Pool} {waiting backlog : Option Backlog} {left : Bytes}
    (hwaiting : ∀ b, waiting = some b → b.InRange pool ∧ left.length ≤ b.bytes.length)
    (hretain : retain pool waiting left = .ok backlog) : ∀ b, backlog = some b → b.InRange pool := by
  rcases retain_cases hretain with ⟨-, rfl⟩ | ⟨-, ⟨b, rfl, rfl⟩ | ⟨b, -, hbytes, rfl⟩⟩
  · rintro _ ⟨⟩
  · obtain ⟨hrange, hle⟩ := hwaiting b rfl
    rintro _ ⟨⟩
    exact hrange.withBytes hle
  · rintro _ ⟨⟩
    exact Backlog.inRange_of_ofBytes? hbytes

theorem Waits.receive (h : c.Waits) {input : Bytes} (hinput : input.length ≤ Size.maxBlock)
    (hpool : d.pool = c.pool) (hpending : d.pending = c.pending ++ input) (hmessage : d.message = []) :
    (c.receive make s input).channel.Waits := by
  unfold Channel.receive
  rcases c.serve_makes make s with ⟨e, hfails⟩ | ⟨k, -, -, hserve⟩
  · rw [hfails]
    exact h
  · rw [hserve]
    rcases hgather : gather c.backlog input with e | ⟨waiting, all⟩
    · exact nofun
    · have hwaiting := gather_inRange h hinput hgather
      obtain rfl : all = d.pending := (gather_ok hgather).trans hpending.symm
      obtain ⟨g, -, hleft⟩ := Link.marked_read hmessage c.runner k .start List.drop_zero.symm
      rw [hpool] at hleft
      dsimp only
      rcases hread : k.read c.pool c.runner d.pending with ⟨e | ⟨o, left⟩, after⟩
      · exact nofun
      · rw [hread] at hleft
        cases o with
        | closed => exact nofun
        | _ =>
          have hrest : left.length ≤ d.pending.length := by
            rw [hleft _ left rfl nofun, List.length_drop]
            exact Nat.sub_le _ _
          dsimp only
          rcases hretain : retain c.pool waiting left with e | backlog
          · exact nofun
          · refine retain_inRange (fun b hb => ?_) hretain
            obtain ⟨hrange, hbytes⟩ := hwaiting b hb
            exact ⟨hrange, hbytes ▸ hrest⟩

variable (c make s) in
theorem pool_handle (request : Request) : (c.handle make s request).channel.pool = c.pool := by
  rcases c.handle_cases make s request with ⟨hdown, -⟩ | ⟨k, m, hserves, -⟩
  · rw [hdown.channel_eq]
  · rw [hserves.turn_eq]
    rfl

omit [Engine E] [Session S] in
/-- What a request works on, when its bytes fit one block. -/
theorem exists_supply (h : c.Waits) (hlimit : c.pool.limit ≤ Size.top) {request : Request}
    (hrequest : request.payload.length ≤ Size.maxBlock) :
    ∃ d : Supply, d.pool = c.pool ∧ d.pending = c.brings request ∧ d.message = request.message := by
  have hwaiting := h.length_le
  have hmessage := Nat.le_trans request.length_message_le hrequest
  have hbrings : (c.brings request).length ≤ c.pending.length + request.payload.length := by
    cases request <;> simp [brings, Request.payload]
  have hpending : (c.brings request).length ≤ Size.top := by
    simp only [Size.maxBlock, Size.top] at *
    omega
  have htop : request.message.length ≤ Size.top := by
    simp only [Size.maxBlock, Size.top] at *
    omega
  exact ⟨⟨c.pool, c.brings request, request.message, hlimit, hpending, htop⟩, rfl, rfl, rfl⟩

variable (make s) in
/-- Every request keeps what waits in range. -/
theorem Waits.handle (h : c.Waits) (hlimit : c.pool.limit ≤ Size.top) {request : Request}
    (hrequest : request.payload.length ≤ Size.maxBlock) : (c.handle make s request).channel.Waits := by
  obtain ⟨d, hpool, hpending, hmessage⟩ := exists_supply h hlimit hrequest
  have hsame : (c.handle make s request).channel.backlog = c.backlog →
      (c.handle make s request).channel.Waits := by
    intro hbacklog b hb
    rw [c.pool_handle make s request]
    exact h b (hbacklog ▸ hb)
  rcases c.handle_cases make s request with ⟨hdown, -⟩ | ⟨k, m, hserves, hleaves⟩
  · exact hsame (by rw [hdown.channel_eq])
  · cases request with
    | receive input => exact h.receive hrequest hpool hpending hmessage
    | prepare | start | send => exact hsame hleaves

theorem Waits.handleAll (h : c.Waits) (hlimit : c.pool.limit ≤ Size.top)
    {history : List (EngineMaker E × Request)}
    (hhistory : ∀ entry ∈ history, entry.2.payload.length ≤ Size.maxBlock) :
    (c.handleAll s history).2.1.Waits ∧ (c.handleAll s history).2.1.pool = c.pool := by
  induction history generalizing c s with
  | nil => exact ⟨h, rfl⟩
  | cons entry history ih =>
    have hpool := c.pool_handle entry.1 s entry.2
    have hnext := h.handle entry.1 s hlimit (hhistory entry List.mem_cons_self)
    obtain ⟨hwaits, hsame⟩ := ih (s := (c.handle entry.1 s entry.2).session) hnext (hpool ▸ hlimit)
      fun other hmem => hhistory other (List.mem_cons_of_mem _ hmem)
    exact ⟨hwaits, hsame.trans hpool⟩

/-- Whatever an engine says that it has consumed and produced, and whatever has happened before: every space
for output, every piece that is queued, every message that is handed over and the input that waits keep the
limit.  Each call is given slices at marks that the sizes' own arithmetic has moved there, and these marks are
in range.  The capacity of what waits is never less than what it holds, also when it grows. -/
theorem limits_hold (pool : Pool) (runner : Runner) (s₀ : S) (hlimit : pool.limit ≤ Size.top)
    (history : List (EngineMaker E × Request))
    (hhistory : ∀ entry ∈ history, entry.2.payload.length ≤ Size.maxBlock) (make : EngineMaker E)
    (request : Request) (hrequest : request.payload.length ≤ Size.maxBlock) :
    let c := ((closed pool runner).handleAll s₀ history).2.1
    let s := ((closed pool runner).handleAll s₀ history).2.2
    let turn := c.handle make s request
    (∀ call ∈ turn.calls.toList, call.IsWithin pool.limit) ∧
      (∀ b, turn.channel.backlog = some b → b.bytes.length ≤ b.capacity ∧ b.capacity ≤ pool.limit ∧
        ∀ needed, b.bytes.length ≤ b.grownCapacity needed) ∧
      ∃ d : Supply, d.pool = pool ∧ d.pending = c.brings request ∧ d.message = request.message ∧
        (∃ g, Marks.Logs d .start turn.calls.toList g ∧ g.InRange d) ∧
        ∀ before call rest, turn.calls.toList = before ++ call :: rest →
          ∃ g, Marks.Logs d .start before g ∧ g.InRange d ∧ g.Gives d call := by
  intro c s turn
  have hbegin : (closed (E := E) pool runner).Waits := nofun
  obtain ⟨hwaits, hpool⟩ := hbegin.handleAll (s := s₀) hlimit hhistory
  change c.Waits at hwaits
  change c.pool = pool at hpool
  obtain ⟨d, hdpool, hpending, hmessage⟩ := exists_supply hwaits (hpool ▸ hlimit) hrequest
  obtain ⟨g, hlogs⟩ := logs_handle make s hdpool hpending hmessage
  have hstart := Marks.inRange_start d
  have hsplit := hlogs.split hstart
  refine ⟨?_, ?_, d, hdpool.trans hpool, hpending, hmessage, ⟨g, hlogs, hlogs.inRange hstart⟩, hsplit⟩
  · intro call hmem
    obtain ⟨before, rest, hcalls⟩ := List.append_of_mem hmem
    obtain ⟨g₁, -, hrange, hgives⟩ := hsplit before call rest hcalls
    rw [← hpool, ← hdpool]
    exact hgives.isWithin hrange
  · intro b hb
    have hrange := hwaits.handle make s (hpool ▸ hlimit) hrequest b hb
    rw [c.pool_handle make s request, hpool] at hrange
    exact ⟨hrange.isOf.length_le, hrange.isOf.capacity_le, hrange.length_le_grownCapacity⟩

/-- Buffers are to grow by the largest size and to have no more than forty bytes, and an engine says that it has
consumed and produced the largest size.  The message is then as long as the buffer for it. -/
theorem limits_hold_script :
    let pool := Pool.ofSizing ((Sizing.usual.withGrowth Size.top).withLimit 40)
    let script : List ScriptStep :=
      [.unwrap ⟨.underflow, .none, 0, 0, []⟩, .unwrap ⟨.ok, .none, Size.top, Size.top, [9]⟩]
    let make : EngineMaker Playback := fun _ => .ok (.start .none script 256)
    let j := Journal.secured true .unknown
    let history := [(make, Request.receive [1, 2, 3])]
    let c := ((closed pool .onTheSpot).handleAll j history).2.1
    let s := ((closed pool .onTheSpot).handleAll j history).2.2
    let turn := c.handle make s (.receive [4, 5])
    pool.limit ≤ Size.top ∧ (∀ entry ∈ history, entry.2.payload.length ≤ Size.maxBlock) ∧
      (Request.receive [4, 5]).payload.length ≤ Size.maxBlock ∧ c.pending = [1, 2, 3] ∧
      (turn.calls.toList.filterMap Call.delivered?).map List.length = [15] ∧
      ∀ call ∈ turn.calls.toList, call.IsWithin pool.limit := by
  intro pool script make j history c s turn
  have hlimit : pool.limit ≤ Size.top := by decide
  have hhistory : ∀ entry ∈ history, entry.2.payload.length ≤ Size.maxBlock :=
    List.forall_mem_singleton.2 (by decide)
  have hrequest : (Request.receive [4, 5]).payload.length ≤ Size.maxBlock := by decide
  obtain ⟨hwithin, -⟩ :=
    limits_hold pool .onTheSpot j hlimit history hhistory make (.receive [4, 5]) hrequest
  exact ⟨hlimit, hhistory, hrequest, by decide +kernel, by decide +kernel, hwithin⟩

end Channel

end SecureStream
