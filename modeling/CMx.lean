import CMx.Lib.Framing
import CMx.Lib.Blocks
import CMx.Lib.Links
import CMx.Queue
import CMx.Queue.Contents
import CMx.Lib.Loop
import CMx.Lib.ResendQueue
import CMx.Lib.Handshake
import CMx.Lib.Slots
import CMx.Lib.Heartbeat
import CMx.Numbers
import CMx.Timer
import CMx.Clock
import CMx.Repeater
import CMx.Socket
import CMx.NetIface
import CMx.Mqtt.Packet
import CMx.Mqtt.Length
import CMx.Mqtt.Body
import CMx.StreamMqtt.Receive
import CMx.StreamMqtt.Queues
import CMx.Idler
import CMx.Mqtt.Layout
import CMx.StreamMqtt.Footprint
import CMx.StreamMqtt.KeepAlive
import CMx.StreamMqtt.Inbound
import CMx.StreamMqtt.Window
import CMx.StreamMqtt.Sending
import CMx.StreamMqtt.Malformed
import CMx.StreamMqtt.Publish
import CMx.StreamMqtt.Connect
import CMx.StreamMqtt.Bodies
import CMx.StreamMqtt.Outgoing
import CMx.StreamMqtt.Answers
import CMx.StreamMqtt.Incoming
import CMx.StreamMqtt.Reassembly
import CMx.StreamMqtt.Parsing
import CMx.StreamMqtt.Reading
import CMx.Net.Wire
import CMx.Net.State
import CMx.Net.Simulation
import CMx.Net.Sender
import CMx.Net.Calls
import CMx.Net.Receiver
import CMx.Net.ExactlyOnce
import CMx.Net.Link
import CMx.Net.KeepAlive
import CMx.Net.Accepted
import CMx.Net.Endpoint
import CMx.Net.Delivery
import CMx.Stream.State
import CMx.Stream.Conserved
import CMx.Stream.Medium
import CMx.Stream.Sockets
import CMx.Stream.Draining
import CMx.Buffer
import CMx.RawBuffer
import CMx.Lib.Search
import CMx.Lib.Table
import CMx.Json
import CMx.Strings
import CMx.Strtok
import CMx.Http
import CMx.Url
import CMx.HttpMsg.State
import CMx.HttpMsg.Headers
import CMx.HttpMsg.Parse
import CMx.HttpMsg.Requests
import CMx.HttpMsg.Trimmed
import CMx.HttpMsg.Serialize
import CMx.HttpMsg.RoundTrip
import CMx.HttpMsg.Parts
import CMx.HttpMsg.Bounds
import CMx.Websocket
import CMx.Sha1
import CMx.Base64
import CMx.StreamWs.State
import CMx.StreamWs.Handshake
import CMx.StreamWs.Closing
import CMx.StreamWs.Reassembly
import CMx.StreamWs.EndOfFile
import CMx.StreamWs.Emitting
import CMx.StreamWs.Reading
import CMx.StreamWs.Conversation
import CMx.StreamWs.Medium
import CMx.StreamWs.Masked
import CMx.StreamWs.Opening
import CMx.StreamWs.Connect
import CMx.Net.Stack
