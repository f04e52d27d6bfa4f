import LiveStreamer.OTAClient.Installs
import LiveStreamer.OTAServer.Requests
import LiveStreamer.Protocol.Agreement
import LiveStreamer.Protocol.Delivery
import LiveStreamer.Protocol.Done
import LiveStreamer.Protocol.Frames
import LiveStreamer.Protocol.Harmless
import LiveStreamer.Protocol.Lockstep
import LiveStreamer.Protocol.Remote
import LiveStreamer.Protocol.Rollout
import LiveStreamer.Protocol.Update
import LiveStreamer.SimpleWeb.Echo
import LiveStreamer.SimpleWeb.Handshake
import LiveStreamer.StreamerClient.Replies
import LiveStreamer.StreamerClient.Sockets
import LiveStreamer.StreamerServer.Alarm
import LiveStreamer.StreamerServer.ClientComm
import LiveStreamer.StreamerServer.Failures
import LiveStreamer.StreamerServer.PlayerCommands
import LiveStreamer.StreamerServer.Resets
import LiveStreamer.StreamerServer.Saves
import LiveStreamer.StreamerServer.Sessions
import LiveStreamer.StreamerServer.StatusMap
import LiveStreamer.StreamerServer.Updates
