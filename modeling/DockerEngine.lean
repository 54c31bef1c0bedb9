import DockerEngine.Lib.Bytes
import DockerEngine.Lib.Reader
import DockerEngine.Lib.Machine
import DockerEngine.Lib.Prelude
import DockerEngine.Pkg.StdCopy
import DockerEngine.Pkg.StdCopyDemux
import DockerEngine.Pkg.TruncIndex
import DockerEngine.Pkg.BytesPipe
import DockerEngine.Layer.Layer
import DockerEngine.Layer.Store
import DockerEngine.Layer.Chain
import DockerEngine.Builder.Parser
import DockerEngine.Go.Filepath
import DockerEngine.Go.Regexp
import DockerEngine.Pkg.Fileutils
import DockerEngine.Pkg.MultiReader
import DockerEngine.Lib.NestedMap
import DockerEngine.Reference.Store
import DockerEngine.Reference.Parse
import DockerEngine.Layer.Restore
import DockerEngine.Pkg.Registrar
import DockerEngine.Pkg.Authorization
import DockerEngine.Pkg.Symlink
import DockerEngine.Go.Walk
import DockerEngine.Archive.Tar
import DockerEngine.Go.Os
import DockerEngine.Archive.Unpack
import DockerEngine.Archive.Changes
import DockerEngine.Archive.TreeDiff
import DockerEngine.Archive.Aufs
import DockerEngine.Distribution.Xfer
import DockerEngine.Logger.JsonFile
import DockerEngine.Go.Utf8
import DockerEngine.Builder.LineParsers
import DockerEngine.Builder.ShellParser
import DockerEngine.Go.Strconv
import DockerEngine.Pkg.Cpuset
import DockerEngine.Go.Sort
import DockerEngine.Pkg.Tarsum
import DockerEngine.Logger.Awslogs
import DockerEngine.Image.Tarexport
import DockerEngine.Distribution.PullV2
import DockerEngine.Archive.Copy
import DockerEngine.Go.Time
import DockerEngine.Go.Json
import DockerEngine.Pkg.Jsonlog
import DockerEngine.Logger.JsonFileRead
import DockerEngine.Go.Base64
import DockerEngine.Cliconfig.Config
import DockerEngine.Runconfig.Parse
import DockerEngine.Distribution.Schema1
import DockerEngine.Daemon.Links
import DockerEngine.Go.Url
import DockerEngine.Opts.Hosts
import DockerEngine.Container.Attach
import DockerEngine.Daemon.Events
import DockerEngine.Graphdriver.AufsMount
import DockerEngine.Daemon.Rename
import DockerEngine.Lib.Bitmap
import DockerEngine.Graphdriver.Devmapper
import DockerEngine.Pkg.Httputils
import DockerEngine.Pkg.AuthorizationResponse
import DockerEngine.Daemon.List
import DockerEngine.Pkg.Mflag
import DockerEngine.Lib.Refinement
import DockerEngine.Pkg.Locker
import DockerEngine.Restartmanager.RestartManager
import DockerEngine.Pkg.Broadcaster
