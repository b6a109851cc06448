import Gtkhx.Voice.Video

/-!
# Inbound events of the voice session

The definitions of `hxvoice::event`. Every entry point into the voice runtime (a UI
click, a frame from the server, a GStreamer signal, a timer) is one `Event`.
-/

namespace Gtkhx.Voice

/-- One voice participant as carried in a 605 room status. -/
structure Participant where
  /-- Hotline user id. -/
  userId : UInt16
  /-- Codec id, 0 for PCMU. -/
  codecId : UInt16
  /-- The server's mute flag. -/
  muted : Bool
  deriving DecidableEq, Repr

/-- An error reply to one of the voice requests. -/
structure ServerError where
  /-- Which request was refused. -/
  originOpcode : UInt32
  /-- The server's text. -/
  text : String
  deriving DecidableEq, Repr

/-- The peer-connection states the machine branches on. -/
inductive ConnectionState
  | connecting
  | connected
  | disconnected
  | failed
  | closed
  deriving DecidableEq, Repr

/-- Which timer expired. -/
inductive Timeout
  | joinReply
  | iceConnectivity
  | dtls
  | media
  | wedgeDeadline
  deriving DecidableEq, Repr

/-- All inbound events the machine handles. -/
inductive Event
  | joinRequested (cid : UInt32)
  | leaveRequested (cid : UInt32)
  | muteToggleRequested (muted : Bool)
  | sdpOfferReceived (cid : UInt32) (sdp : String)
  | iceCandidateReceived (cid : UInt32) (candidateJson : String)
  | endOfRemoteCandidates (cid : UInt32)
  | participantsUpdated (cid : UInt32) (entries : List Participant)
  | serverTaskError (err : ServerError)
  | videoStatusReceived (cid : UInt32) (publications : List Publication)
      (selfUid : Option UInt16)
  | videoSubscriptionsWanted (streams : List Stream)
  | videoStartRequested (kind : VideoKind)
  | videoStopRequested (kind : VideoKind)
  | videoPauseRequested (kind : VideoKind) (paused : Bool)
  | videoStartFailed (cid : UInt32) (kind : VideoKind) (gen : UInt32) (text : String)
  | videoPauseFailed (cid : UInt32) (kind : VideoKind) (gen : UInt32) (text : String)
  | videoCaptureFailed (kind : VideoKind) (text : String)
  | webrtcPadAdded (mid : String)
  | webrtcPadRemoved (mid : String)
  | webrtcAnswerCreated (sdp : String)
  | webrtcLocalIceGathered (candidateJson : String)
  | webrtcConnectionStateChanged (state : ConnectionState)
  | timeout (kind : Timeout)
  deriving DecidableEq, Repr

end Gtkhx.Voice
