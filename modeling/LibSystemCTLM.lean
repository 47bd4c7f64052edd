import LibSystemCTLM.Ace.Exclusive
import LibSystemCTLM.Ace.MaintenanceRuns
import LibSystemCTLM.Ace.ErrorPath
import LibSystemCTLM.Ace.WriteThrough
import LibSystemCTLM.Ace.DvmCompletesRuns
import LibSystemCTLM.Ace.SecureWorlds
import LibSystemCTLM.Ace.SnoopLocks
import LibSystemCTLM.Ace.SnoopSlave
import LibSystemCTLM.RemotePort.Commands
import LibSystemCTLM.RemotePort.Safety
import LibSystemCTLM.RemotePort.ResponseLayout
import LibSystemCTLM.RemotePort.Responses
import LibSystemCTLM.Chi.RequestRetryRuns
import LibSystemCTLM.Chi.Segment
import LibSystemCTLM.Chi.AtomicReturn
import LibSystemCTLM.Chi.AtomicSnoops
import LibSystemCTLM.Chi.SlaveRetry
import LibSystemCTLM.Chi.CopyBack
import LibSystemCTLM.Chi.TxnIDs
import LibSystemCTLM.Chi.DvmTransport
import LibSystemCTLM.Chi.CleanUnique
import LibSystemCTLM.Ccix.LinkCredits
import LibSystemCTLM.Ccix.SnoopingRuns
import LibSystemCTLM.Ccix.Chains
import LibSystemCTLM.Ccix.CxsReassembly
import LibSystemCTLM.Ccix.CxsCredits
import LibSystemCTLM.Tlm.ExclusiveReports
import LibSystemCTLM.Tlm.WrapExpander
import LibSystemCTLM.Rtl.AddrAllocatorRuns
import LibSystemCTLM.Axi.WriteCheckerRuns
import LibSystemCTLM.Axi.HandshakeRuns
import LibSystemCTLM.Axi.Tlm2AxiEnables
import LibSystemCTLM.Axi.Tlm2AxiCompletionRuns
import LibSystemCTLM.Axi.Axi2TlmChannelRuns
import LibSystemCTLM.Axi.Axi2TlmReads
import LibSystemCTLM.Axi.Axi2TlmResetRuns
import LibSystemCTLM.Axi.AxisStream
import LibSystemCTLM.Xgmii.RoundTrip
import LibSystemCTLM.Dma.McdmaS2mmRuns
import LibSystemCTLM.Pcie.MemWrite
import LibSystemCTLM.Pcie.Completion
import LibSystemCTLM.Pcie.QdmaRuns
import LibSystemCTLM.Pcie.QdmaIrqRuns
import LibSystemCTLM.Chi.CheckerRequests
import LibSystemCTLM.Ace.BarrierChecker
import LibSystemCTLM.Ace.SnoopChannelChecker
import LibSystemCTLM.Axi.ReadChecker
import LibSystemCTLM.Crypto.HscKeys
import LibSystemCTLM.Dma.McdmaIrqs
import LibSystemCTLM.Axi.StableChecker
import LibSystemCTLM.Ace.WriteChecker
import LibSystemCTLM.Ace.CdDataChecker
import LibSystemCTLM.Soc.IconnectDmi
import LibSystemCTLM.Traffic.RandomInflator
import LibSystemCTLM.Traffic.RandomTraffic
import LibSystemCTLM.AxiLite.Reset
import LibSystemCTLM.Wishbone.Bridges
import LibSystemCTLM.Tlm.Windows
import LibSystemCTLM.HwBridge.WriteStrobes
import LibSystemCTLM.HwBridge.BurstBuffers
import LibSystemCTLM.Dma.Cdma
import LibSystemCTLM.Umi.Bridges
