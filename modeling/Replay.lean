import Replay.Config.Json
import Replay.Config.Toml
import Replay.Proofs.Accounts.LentKept
import Replay.Proofs.Accounts.Making
import Replay.Proofs.Accounts.Opening
import Replay.Proofs.Buffer.Fatal
import Replay.Proofs.Buffer.Promises
import Replay.Proofs.Config.Json
import Replay.Proofs.Config.Toml
import Replay.Proofs.Hosting.CursorOps
import Replay.Proofs.Hosting.Lifecycle
import Replay.Proofs.Hosting.Registering
import Replay.Proofs.Hosting.Releasing
import Replay.Proofs.Hosting.Undisturbed
import Replay.Proofs.Janitor.Failing
import Replay.Proofs.Janitor.Lasting
import Replay.Proofs.Janitor.StoreOps
import Replay.Proofs.Managing.Reopening
import Replay.Proofs.Promises.Cursors
import Replay.Proofs.Promises.Handles
import Replay.Proofs.Promises.Remembering
import Replay.Proofs.Promises.Upkeep
import Replay.Proofs.Resting
import Replay.Proofs.Shared.ClosedForm
import Replay.Proofs.Shared.Consumption
import Replay.Proofs.Shared.Faultless
import Replay.Proofs.Shared.Filling
import Replay.Proofs.Shared.Independence
import Replay.Proofs.Shared.Iterating
import Replay.Proofs.Shared.Shape
import Replay.Proofs.Shared.Walking
import Replay.Proofs.Slots
import Replay.Proofs.Sources.Bytes
import Replay.Proofs.Sources.Custody
import Replay.Proofs.Sources.Sizes
import Replay.Proofs.Towers.Levels
import Replay.Proofs.Unlogged
import Replay.Proofs.Walking
import Replay.Proofs.World.Accounts
import Replay.Proofs.World.Backstop
import Replay.Proofs.World.Openings
import Replay.Proofs.World.ReentrantOps
import Replay.Proofs.World.Routes
import Replay.Session.Run
