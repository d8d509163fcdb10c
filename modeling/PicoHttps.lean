import PicoHttps.Basics.While
import PicoHttps.Basics.Buffer
import PicoHttps.Basics.Bytes
import PicoHttps.Basics.Chunked
import PicoHttps.Basics.Varint
import PicoHttps.WebSocket.Handler
import PicoHttps.WebSocket.Frame
import PicoHttps.WebSocket.Decode
import PicoHttps.WebSocket.Encode
import PicoHttps.WebSocket.Prompt
import PicoHttps.WebSocket.Bounds
import PicoHttps.Mqtt.Handler
import PicoHttps.Mqtt.Reader
import PicoHttps.Mqtt.Recv
import PicoHttps.Mqtt.Cuts
import PicoHttps.Mqtt.Packets
import PicoHttps.Mqtt.Extents
import PicoHttps.Mqtt.Rejects
import PicoHttps.Mqtt.Send
import PicoHttps.Mqtt.Framing
import PicoHttps.Mqtt.RoundTrip
import PicoHttps.Mqtt.Keepalive
import PicoHttps.Mqtt.Reports
import PicoHttps.Mqtt.Failures
import PicoHttps.Mqtt.Announced
import PicoHttps.Mqtt.Progress
import PicoHttps.Mqtt.Buffering
import PicoHttps.Mqtt.LastChunk
import PicoHttps.Mqtt.Reconnect
import PicoHttps.Mqtt.Connect
import PicoHttps.Mqtt.Fresh
import PicoHttps.Mqtt.Due
import PicoHttps.Basics.Text
import PicoHttps.Http.Header
import PicoHttps.Http.Message
import PicoHttps.Http.Parse
import PicoHttps.Http.Canonical
import PicoHttps.Http.Boundaries
import PicoHttps.Http.Response
import PicoHttps.Http.Blanks
import PicoHttps.Http.Indexed
import PicoHttps.Basics.Reentrant
import PicoHttps.Basics.Ledger
import PicoHttps.Tls.Session
import PicoHttps.Tls.Methods
import PicoHttps.Tls.Closing
import PicoHttps.Tls.Chain
import PicoHttps.Tls.Abort
import PicoHttps.Tls.Reopening
import PicoHttps.Tls.Serving
import PicoHttps.Tls.Acknowledged
import PicoHttps.Tls.Sending
import PicoHttps.Tls.Outgoing
import PicoHttps.Tls.Incoming
import PicoHttps.Http.Session
import PicoHttps.Http.Delivery
import PicoHttps.Http.Closed
import PicoHttps.Http.Routing
import PicoHttps.Http.Request
import PicoHttps.Http.Received
import PicoHttps.Http.Exchange
import PicoHttps.Http.Outgoing
import PicoHttps.Http.Dialogue
import PicoHttps.Http.Client
import PicoHttps.Http.Transmission
import PicoHttps.Http.EndToEnd
import PicoHttps.Http.Replied
import PicoHttps.Ota.Install
import PicoHttps.Ota.Reception
import PicoHttps.Ota.Genuine
import PicoHttps.Ota.Regions
import PicoHttps.Ota.Retry
import PicoHttps.Ota.Overlay
