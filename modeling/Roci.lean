import Roci.Filesystem.Confinement
import Roci.Filesystem.Discovery
import Roci.Filesystem.Finished
import Roci.Filesystem.Quota
import Roci.Filesystem.Scrub
import Roci.Filesystem.Verification
import Roci.Gc.DeleteCrash
import Roci.Gc.Startup
import Roci.Handlers.Authorization
import Roci.Handlers.Conditional
import Roci.Handlers.Credentials
import Roci.Handlers.Headers
import Roci.Handlers.Paths
import Roci.Handlers.Specificity
import Roci.Layout.Rebuild
import Roci.Layout.WriteBehind
import Roci.Lmdb.ArtifactTypes
import Roci.Lmdb.KeySizes
import Roci.Manifests.Nesting
import Roci.Manifests.Tags
import Roci.Metadata.CompactionFailure
import Roci.Metadata.Forgery
import Roci.Metadata.GroupCommit
import Roci.Migration.Frame
import Roci.S3.Locks
import Roci.Storage.FileStream
import Roci.Storage.Routing
