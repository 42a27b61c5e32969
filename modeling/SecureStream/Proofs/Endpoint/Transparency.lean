import SecureStream.Endpoint
import SecureStream.Proofs.Channel.Transparency
import SecureStream.Proofs.Engine.Attempts

/-!
# Sizes of buffers do not show

Two ends with different pools behave in the same way up to the first request for which one of them cannot have
a buffer (`Endpoint.sizing_transparent`).  The reason is that each call of a masked engine needs a certain
amount of room (`Masked.isMeasured`): a record that does not fit is put off without any change, and is sent or
opened in the same way once it fits.
-/

namespace SecureStream

theorem Engine.IsFitting.measured {E : Type} {ask : Nat → Except EngineError Reply × E} {e : E} {input : Bytes}
    (h : IsFitting ask e input) : Measured e ask := by
  obtain ⟨needed, demand, answer, next, hfits⟩ := h
  refine .fits needed demand answer next ?_ hfits.ask_eq
  intro r hr
  obtain ⟨hverdict, -, hproduced, hlength⟩ := hfits.reply r hr
  exact ⟨hverdict, hproduced, hlength⟩

namespace Masked

theorem measured_wrap (m : Masked) (input : Bytes) : Engine.Measured m (Engine.wrap m input) := by
  by_cases hfeigning : m.IsFeigning input
  · exact .feigned .none _ hfeigning.wrap_eq
  · exact (isFitting_wrap hfeigning).measured

theorem isMeasured : Engine.IsMeasured Masked := ⟨measured_wrap, fun m input => (m.isFitting_unwrap input).measured⟩

end Masked

namespace Endpoint

/-- How buffers are sized decides whether a request fails for want of a buffer, and nothing else.  As long as no
request so far has failed so in either of two ends with the same options, all results are the same, and after
every request so are the engine, the session with its queue, its messages and the states it moved to, and the
input that waits. -/
theorem sizing_transparent (isClient : Bool) (options : MaskedOptions) (pool pool' : Pool)
    (requests : List Request) (n : Nat) :
    let turns := ((connected isClient options pool).handleAll requests).1
    let turns' := ((connected isClient options pool').handleAll requests).1
    (∀ turn ∈ turns.take n, ¬ turn.isShort) → (∀ turn ∈ turns'.take n, ¬ turn.isShort) →
      (turns.take n).map Turn.seen = (turns'.take n).map Turn.seen := by
  intro turns turns' hroom hroom'
  have hview : (connected isClient options pool).channel.view =
    (connected isClient options pool').channel.view := rfl
  exact Channel.seen_handleAll _ Masked.isMeasured hview _ n hroom hroom'

/-- A server with the usual buffers, and one whose buffers are as small as can be and grow byte by byte.  They
serve a handshake, a message that takes two records and for which a lack of room is feigned once, and a message
that comes in two pieces.  The second one has to ask its engine again and again; what it gives is the same. -/
theorem sizing_transparent_bytewise :
    let options : MaskedOptions := ⟨1, 2, by decide, by decide⟩
    let pool := Pool.usual
    let pool' := Pool.ofSizing
      (((((Sizing.usual.withGrowth 1).withHandshakeRoom 0).withHeadroom 0).withExpansion 1).withLimit 40)
    let data := (Record.mk Record.data [7, 8, 9]).toBytes
    let requests : List Request :=
      [.receive (Masked.helloRecord.toBytes ++ data.take 1), .send [1, 2, 3], .receive (data.drop 1 ++ data.take 4)]
    let turns := ((connected false options pool).handleAll requests).1
    let turns' := ((connected false options pool').handleAll requests).1
    (∀ turn ∈ turns.take 3, ¬ turn.isShort) ∧ (∀ turn ∈ turns'.take 3, ¬ turn.isShort) ∧
      turns.map (·.calls.size) = [13, 4, 3] ∧ turns'.map (·.calls.size) = [18, 9, 3] ∧
      (turns.take 3).map Turn.seen = (turns'.take 3).map Turn.seen := by
  intro options pool pool' data requests turns turns'
  have hroom : ∀ turn ∈ turns.take 3, ¬ turn.isShort := by decide +kernel
  have hroom' : ∀ turn ∈ turns'.take 3, ¬ turn.isShort := by decide +kernel
  exact ⟨hroom, hroom', by decide +kernel, by decide +kernel,
    sizing_transparent false options pool pool' requests 3 hroom hroom'⟩

end Endpoint

end SecureStream
