import CohesionIpc.Foundation.Transition
import CohesionIpc.Model.Sockets.HandleSession
import CohesionIpc.Model.Writers
import CohesionIpc.Verification.Transport.RoundTrip
import CohesionIpc.Verification.Transport.Headers
import CohesionIpc.Verification.CancellableRead.Progress
import CohesionIpc.Verification.CancellableRead.Unix
import CohesionIpc.Verification.Sockets.Faults
import CohesionIpc.Verification.Sockets.Identifiers
import CohesionIpc.Verification.Sockets.StartUp
import CohesionIpc.Verification.Spawn.Isolation
import CohesionIpc.Verification.Strmd.Subscriptions
import CohesionIpc.Verification.Strmd.Requests
import CohesionIpc.Verification.Strmd.Correlation
import CohesionIpc.Verification.Strmd.Dispatch
import CohesionIpc.Verification.Strmd.Routines
import CohesionIpc.Verification.Strmd.Arguments
import CohesionIpc.Verification.Strmd.Deferral
import CohesionIpc.Verification.Strmd.Streams
import CohesionIpc.Verification.Sockets.Handles
import CohesionIpc.Verification.Endpoints.Guids
import CohesionIpc.Verification.Stream.Progress
import CohesionIpc.Verification.Sockets.Turns
import CohesionIpc.Verification.Spawn.Failures
import CohesionIpc.Verification.Spawn.Environments
import CohesionIpc.Verification.Spawn.Windows
import CohesionIpc.Verification.Strmd.Wire
import CohesionIpc.Verification.Sockets.Blocking
import CohesionIpc.Verification.Sockets.Orderly
import CohesionIpc.Verification.Sockets.Progress
import CohesionIpc.Verification.Spawn.Progress
import CohesionIpc.Verification.Sockets.ClientSession
