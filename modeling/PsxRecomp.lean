import PsxRecomp.Machine.GteDivide
import PsxRecomp.Interp.Oracle
import PsxRecomp.Analysis.Split
import PsxRecomp.Analysis.Extent
import PsxRecomp.Bios.Dispatch
import PsxRecomp.Bios.Trampoline
import PsxRecomp.Runtime.TextGuard
import PsxRecomp.Runtime.DmaEvents
import PsxRecomp.Runtime.MdecRange
import PsxRecomp.Runtime.OrderingTable
import PsxRecomp.Runtime.Cycles
import PsxRecomp.Runtime.Interlock
import PsxRecomp.Runtime.OverlayActive
import PsxRecomp.Runtime.ShadowDiff
import PsxRecomp.Runtime.BootState
import PsxRecomp.Runtime.Gp0Framing
import PsxRecomp.Runtime.TimersIrq
import PsxRecomp.Runtime.SioPad
import PsxRecomp.Runtime.Vblank
import PsxRecomp.Runtime.Threads
import PsxRecomp.Runtime.CdromEvents
import PsxRecomp.Runtime.Mmio
import PsxRecomp.Jit.Agree
import PsxRecomp.Emit.Unaligned
import PsxRecomp.Emit.Ranges
import PsxRecomp.Emit.Labels
import PsxRecomp.Emit.DelaySlot
import PsxRecomp.Bios.Discovery
import PsxRecomp.Tools.LzDecode
import PsxRecomp.Runtime.SpuUpload
import PsxRecomp.Runtime.SpuMix
import PsxRecomp.Runtime.SpuEnvelope
import PsxRecomp.Runtime.SpuPitch
import PsxRecomp.Runtime.TextXlate
