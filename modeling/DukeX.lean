import DukeX.Apu.DspAddress
import DukeX.Apu.DspShift
import DukeX.Apu.Fifo
import DukeX.Apu.ScratchCopy
import DukeX.Apu.VoiceSamples
import DukeX.Apu.WorkerPool
import DukeX.CloudSaves.Listing
import DukeX.CloudSaves.RoundTrip
import DukeX.Eeprom.Identity
import DukeX.Fatx.Confined
import DukeX.Fatx.Timestamp
import DukeX.Nv2a.BlitExact
import DukeX.Nv2a.DrawnOnce
import DukeX.Nv2a.Immediate
import DukeX.Nv2a.Interrupts
import DukeX.Nv2a.PgraphRuns
import DukeX.Nv2a.Provoking
import DukeX.Nv2a.Ramht
import DukeX.Nv2a.ReportsExact
import DukeX.Nv2a.RewriteCalls
import DukeX.Nv2a.SurfaceSizes
import DukeX.Nv2a.Swizzle
import DukeX.Nv2a.TextureBindings
import DukeX.Nv2a.VertexSync
import DukeX.Nvnet.Rings
import DukeX.Nvnet.Snapshot
import DukeX.Qcow2.Accepted
import DukeX.Qcow2.Agreement
import DukeX.Slirp.DnsRedirect
import DukeX.Slirp.InsigniaDns
import DukeX.Xiso.Directory
