import Gtkhx.Actor.Delivered
import Gtkhx.Bookmarks.Export
import Gtkhx.Bookmarks.HostPort
import Gtkhx.Bookmarks.HotlineUrl
import Gtkhx.Bookmarks.Legacy
import Gtkhx.Chat.Cycling
import Gtkhx.Chat.Members
import Gtkhx.Chat.Membership
import Gtkhx.Control.Ordered
import Gtkhx.Dock.Document
import Gtkhx.Htxf.Authentic
import Gtkhx.Htxf.Checked
import Gtkhx.Htxf.Resumed
import Gtkhx.Htxf.Sealed
import Gtkhx.Htxf.Timeouts
import Gtkhx.Icons.Decoded
import Gtkhx.Icons.Picker
import Gtkhx.Library.BigEndian
import Gtkhx.Library.Indexed
import Gtkhx.Library.Pieces
import Gtkhx.Library.Reactive
import Gtkhx.Library.Tickets
import Gtkhx.Messaging.Budget
import Gtkhx.Messaging.Reached
import Gtkhx.Messaging.Snapshot
import Gtkhx.News.Threading
import Gtkhx.Pictures.Exchanged
import Gtkhx.Pictures.Filed
import Gtkhx.Pictures.Journeys
import Gtkhx.Pictures.Media
import Gtkhx.Pictures.Slots
import Gtkhx.Preferences.Accessors
import Gtkhx.Preferences.Config
import Gtkhx.Preferences.Migrate
import Gtkhx.Preferences.Saved
import Gtkhx.Preferences.Schema
import Gtkhx.Preferences.Survives
import Gtkhx.Preferences.Written
import Gtkhx.Preview.Served
import Gtkhx.Requests.Answered
import Gtkhx.Requests.Listing
import Gtkhx.Requests.Moves
import Gtkhx.Tracker.Records
import Gtkhx.Tracker.Walk
import Gtkhx.Transfers.Folders
import Gtkhx.Transfers.Moving
import Gtkhx.Transfers.Names
import Gtkhx.Transfers.Queue
import Gtkhx.Transfers.Workers
import Gtkhx.Trust.Decide
import Gtkhx.Trust.Pinned
import Gtkhx.Upload.Announced
import Gtkhx.Upload.Arrived
import Gtkhx.Upload.Learned
import Gtkhx.Voice.Answers
import Gtkhx.Voice.Control
import Gtkhx.Voice.Microphone
import Gtkhx.Voice.Mids
import Gtkhx.Voice.Negotiation
import Gtkhx.Voice.Pausing
import Gtkhx.Voice.Publishing
import Gtkhx.Voice.Sections
import Gtkhx.Voice.StaleCallbacks
import Gtkhx.Voice.Subscriptions
import Gtkhx.Voice.Timers
import Gtkhx.Voice.Watchdog
