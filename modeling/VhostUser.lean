import VhostUser.Ring.Atomic
import VhostUser.Ring.Publication
import VhostUser.Ring.Put
import VhostUser.Ring.Kick
import VhostUser.Dev.Writes
import VhostUser.Dev.Completed
import VhostUser.Poller.Sync
import VhostUser.Poller.Adaptive
import VhostUser.Dev.Store
import VhostUser.Dev.Spared
import VhostUser.Dev.AsyncRead
import VhostUser.Dev.PastEnd
import VhostUser.Dev.Length
import VhostUser.Dev.Descriptors
import VhostUser.Dev.Mixed
import VhostUser.Handle.Process
import VhostUser.Handle.Geometry
import VhostUser.Client.Session
import VhostUser.Shm.Maps
import VhostUser.Poller.Delivery
import VhostUser.Poller.Returns
