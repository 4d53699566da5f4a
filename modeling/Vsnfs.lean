import Vsnfs.ReadReply
import Vsnfs.ReaddirRoundTrip
import Vsnfs.ReaddirEncode
import Vsnfs.ReaddirBounds
import Vsnfs.HandleCodec
import Vsnfs.ServerDispatch
import Vsnfs.ServerPaths
import Vsnfs.RequestCodec
import Vsnfs.ReaddirReply
import Vsnfs.ReaddirPage
import Vsnfs.ReaddirResume
import Vsnfs.ServerHistory
import Vsnfs.LookupChain
import Vsnfs.LookupObjects
import Vsnfs.ServerWalks
import Vsnfs.ClientInodes
import Vsnfs.StatusTables
import Vsnfs.ClientLookup
import Vsnfs.ClientMount
import Vsnfs.MountOptions
import Vsnfs.BasePaths
import Vsnfs.LookupScope
import Vsnfs.LookupOrder
import Vsnfs.LookupKinds
import Vsnfs.MessageSizes
import Vsnfs.ReaddirRelease
import Vsnfs.EntryHandles
import Vsnfs.KernelPaths
import Vsnfs.ServerBounds
import Vsnfs.RpcCalls
import Vsnfs.NetworkHandles
import Vsnfs.RepeatedCalls
import Vsnfs.ClientWalk
import Vsnfs.ClientListing
import Vsnfs.MountLife
import Vsnfs.ServiceLife
import Vsnfs.BaseShared
import Vsnfs.ServerDaemon
import Vsnfs.BaseLedger
import Vsnfs.ServerUptime
import Vsnfs.ServerLedger
import Vsnfs.ClientStray
