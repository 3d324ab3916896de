import CameraChannel.Capture.Canned
import CameraChannel.Frame.Buffered
import CameraChannel.Main
import CameraChannel.Proofs.Text.Utf8
import CameraChannel.Proofs.Decimal.Digits
import CameraChannel.Proofs.Json.Strings
import CameraChannel.Proofs.Json.Integers
import CameraChannel.Proofs.Json.Spelling
import CameraChannel.Proofs.Json.Spans
import CameraChannel.Proofs.Json.Literals
import CameraChannel.Proofs.Json.Extent
import CameraChannel.Proofs.Command.RoundTrip
import CameraChannel.Proofs.Frame.Header
import CameraChannel.Proofs.Frame.RoundTrip
import CameraChannel.Proofs.Frame.Batches
import CameraChannel.Proofs.Frame.Conservation
import CameraChannel.Proofs.Frame.Extension
import CameraChannel.Proofs.Stream.Arrivals
import CameraChannel.Proofs.Stream.Delivery
import CameraChannel.Proofs.Stream.Timing
import CameraChannel.Proofs.Stream.Release
import CameraChannel.Proofs.Stream.Replies
import CameraChannel.Proofs.Json.Conversions
import CameraChannel.Proofs.Json.Members
import CameraChannel.Proofs.Command.Acceptance
import CameraChannel.Proofs.Command.Resending
import CameraChannel.Proofs.Stream.Listening
import CameraChannel.Proofs.Text.Hex
import CameraChannel.Proofs.CommandLine.Decoding
import CameraChannel.Proofs.CommandLine.OneShot
import CameraChannel.Proofs.CommandLine.Tokens
import CameraChannel.Proofs.Capture.Calendar
import CameraChannel.Proofs.Capture.Naming
import CameraChannel.Proofs.Files.Walking
import CameraChannel.Proofs.Capture.Newest
import CameraChannel.Proofs.Capture.Analysis
import CameraChannel.Proofs.Json.Records
import CameraChannel.Proofs.Settings.Restoring
import CameraChannel.Proofs.Frame.Boundaries
import CameraChannel.Proofs.Command.Building
import CameraChannel.Proofs.Json.Spacing
import CameraChannel.Proofs.Json.Indifference
import CameraChannel.Proofs.Json.Respacing
import CameraChannel.Proofs.Command.Respacing
import CameraChannel.Proofs.Stream.Sending
import CameraChannel.Proofs.Command.Agreement
import CameraChannel.Proofs.Command.Reserved
import CameraChannel.Proofs.Frame.Rendering
import CameraChannel.Proofs.Stream.Limits
import CameraChannel.Proofs.Frame.Layout
import CameraChannel.Proofs.Capture.Arguments
import CameraChannel.Proofs.Capture.Watching
import CameraChannel.Proofs.Stream.Buffering
