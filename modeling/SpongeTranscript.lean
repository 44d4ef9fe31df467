import SpongeTranscript.Keccak
import SpongeTranscript.Duplex.Call
import SpongeTranscript.Transcript.Call
import SpongeTranscript.Stream.Session
import SpongeTranscript.Stream.Script
import SpongeTranscript.Scheme.MessageHash
import SpongeTranscript.Scheme.MessageTag
import SpongeTranscript.Scheme.SealingKey
import SpongeTranscript.Proofs.LengthCode
import SpongeTranscript.Proofs.LengthCode.Word
import SpongeTranscript.Proofs.Duplex.Duality
import SpongeTranscript.Proofs.Duplex.Observed
import SpongeTranscript.Proofs.Duplex.Guarded
import SpongeTranscript.Proofs.Duplex.Divergence
import SpongeTranscript.Proofs.Duplex.Logged
import SpongeTranscript.Proofs.Duplex.Padding
import SpongeTranscript.Proofs.Duplex.Capacity
import SpongeTranscript.Proofs.Tape.Basic
import SpongeTranscript.Proofs.Tape.Playback
import SpongeTranscript.Proofs.Tape.Separation
import SpongeTranscript.Proofs.Tape.Frames
import SpongeTranscript.Proofs.Transcript.Duality
import SpongeTranscript.Proofs.Transcript.Body
import SpongeTranscript.Proofs.Transcript.Sealing
import SpongeTranscript.Proofs.Transcript.Opening
import SpongeTranscript.Proofs.Transcript.Synchrony
import SpongeTranscript.Proofs.Transcript.Act
import SpongeTranscript.Proofs.Transcript.Decoding
import SpongeTranscript.Proofs.Transcript.Unambiguity
import SpongeTranscript.Proofs.Transcript.Parts
import SpongeTranscript.Proofs.Transcript.Binding
import SpongeTranscript.Proofs.Transcript.Framing
import SpongeTranscript.Proofs.Transcript.Divergence
import SpongeTranscript.Proofs.Transcript.Erasure
import SpongeTranscript.Proofs.Transcript.Cost
import SpongeTranscript.Proofs.Stream.Runs
import SpongeTranscript.Proofs.Stream.Recorded
import SpongeTranscript.Proofs.Stream.Traced
import SpongeTranscript.Proofs.Stream.Delivery
import SpongeTranscript.Proofs.Stream.Passage
import SpongeTranscript.Proofs.Stream.Excerpt
import SpongeTranscript.Proofs.Stream.Endpoint
import SpongeTranscript.Proofs.Scheme.Pieces
import SpongeTranscript.Proofs.Pool
import SpongeTranscript.Proofs.Snapshot
