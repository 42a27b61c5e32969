import SecureStream.Diagnostics.Event
import SecureStream.Frame.Header

/-!
# What is reported of frames

A header that has been read in full is reported in every detail.
-/

namespace SecureStream

/-- The event of a header that has been read. -/
def Header.event (h : Header) : Event :=
  .ofTopic .codec .trace "frame header decoded"
    [("length", toString h.length), ("frame_type", toString h.kind), ("flags", toString h.flags),
      ("stream_id", toString h.streamId)]

end SecureStream
