import Zsbl.Lib.Links
import Zsbl.Lib.Chain
import Zsbl.Lib.Select
import Zsbl.Lib.Cycle
import Zsbl.Lib.Runs
import Zsbl.Lib.Bytes
import Zsbl.Lib.Spans
import Zsbl.Lib.Der
import Zsbl.Lib.DeviceTree
import Zsbl.Lib.Primality
import Zsbl.Lib.ShiftRegister
import Zsbl.Lib.Signature
import Zsbl.Lib.Memory
import Zsbl.Lib.Probe
import Zsbl.Lib.Cursor
import Zsbl.Lib.Climb
import Zsbl.Include.Libc
import Zsbl.Include.List
import Zsbl.Common.Thread
import Zsbl.Common.SchedSystem
import Zsbl.Common.Semaphore
import Zsbl.Common.Machine
import Zsbl.Common.Preempt
import Zsbl.Common.Mmio
import Zsbl.Common.Vfs
import Zsbl.Common.VfsSystem
import Zsbl.Common.VfsContents
import Zsbl.Drivers.Bootdev
import Zsbl.Drivers.Interrupt
import Zsbl.Drivers.IrqRegistry
import Zsbl.Drivers.Device
import Zsbl.Drivers.Platform
import Zsbl.Drivers.Blkdev
import Zsbl.Drivers.Nvmem
import Zsbl.Drivers.Efuse
import Zsbl.Drivers.Sgspif
import Zsbl.Drivers.VirtioBlk
import Zsbl.Drivers.Pkadev
import Zsbl.Drivers.PkaAlg
import Zsbl.Fs.Sgpart
import Zsbl.Fs.Sysfs
import Zsbl.Fs.Automount
import Zsbl.Fs.Fatfs
import Zsbl.Fs.FatVolume
import Zsbl.Libs.Sgmtd
import Zsbl.Libs.Fatio
import Zsbl.Libs.Diskio
import Zsbl.Libs.Xmodem
import Zsbl.Libs.Stdio
import Zsbl.Libs.Console
import Zsbl.Libs.CString
import Zsbl.Libs.Akcipher
import Zsbl.Libs.Ec
import Zsbl.Libs.AkcipherVerify
import Zsbl.Libs.Efi
import Zsbl.Plat.Bm1690
import Zsbl.Plat.ConfigFile
import Zsbl.Plat.Sg2042
import Zsbl.Plat.Sg2044
import Zsbl.Plat.Sg2044Boot
import Zsbl.Plat.Sg2044Memory
import Zsbl.Arch.Smp
import Zsbl.Arch.Atomic
import Zsbl.Arch.Crt
import Zsbl.Proofs.Sched
import Zsbl.Proofs.SchedInvariant
import Zsbl.Proofs.SchedSelection
import Zsbl.Proofs.Msleep
import Zsbl.Proofs.Semaphore
import Zsbl.Proofs.Machine
import Zsbl.Proofs.SemaphoreInvariant
import Zsbl.Proofs.MachineInvariant
import Zsbl.Proofs.ContextSwitch
import Zsbl.Proofs.SemaphoreCorrect
import Zsbl.Proofs.Vfs
import Zsbl.Proofs.VfsMounts
import Zsbl.Proofs.VfsRemoval
import Zsbl.Proofs.VfsMount
import Zsbl.Proofs.VfsUmount
import Zsbl.Proofs.VfsInvariant
import Zsbl.Proofs.VfsPath
import Zsbl.Proofs.VfsTeardown
import Zsbl.Proofs.VfsMountGraph
import Zsbl.Proofs.VfsShape
import Zsbl.Proofs.VfsOpenFiles
import Zsbl.Proofs.VfsDescriptors
import Zsbl.Proofs.VfsCursor
import Zsbl.Proofs.VfsNames
import Zsbl.Proofs.VfsResolve
import Zsbl.Proofs.VfsMkdirPath
import Zsbl.Proofs.VfsFilled
import Zsbl.Proofs.VfsAccess
import Zsbl.Proofs.VfsMountOutcome
import Zsbl.Proofs.VfsMountUndo
import Zsbl.Proofs.VfsLayout
import Zsbl.Proofs.VfsOwnTree
import Zsbl.Proofs.Bootdev
import Zsbl.Proofs.BootOrder
import Zsbl.Proofs.Sg2042
import Zsbl.Proofs.Efuse
import Zsbl.Proofs.EfuseCells
import Zsbl.Proofs.Sgspif
import Zsbl.Proofs.VirtioBlk
import Zsbl.Proofs.Interrupt
import Zsbl.Proofs.IrqRegistry
import Zsbl.Proofs.IrqNumbers
import Zsbl.Proofs.Blkdev
import Zsbl.Proofs.Fatio
import Zsbl.Proofs.Diskio
import Zsbl.Proofs.Smp
import Zsbl.Proofs.Atomic
import Zsbl.Proofs.Crt
import Zsbl.Proofs.Preempt
import Zsbl.Proofs.Sgpart
import Zsbl.Proofs.Sgmtd
import Zsbl.Proofs.SgpartContents
import Zsbl.Proofs.FatfsRead
import Zsbl.Proofs.FatfsTree
import Zsbl.Proofs.FatfsListing
import Zsbl.Proofs.FatfsMirror
import Zsbl.Proofs.XmodemFrame
import Zsbl.Proofs.Xmodem
import Zsbl.Proofs.Console
import Zsbl.Proofs.ConsoleRuns
import Zsbl.Proofs.CString
import Zsbl.Proofs.ConfigFile
import Zsbl.Proofs.Bootargs
import Zsbl.Libs.Fdtput
import Zsbl.Proofs.Fdtput
import Zsbl.Plat.Sg2042Dtb
import Zsbl.Plat.Mac
import Zsbl.Proofs.Sg2042Dtb
import Zsbl.Proofs.Efi
import Zsbl.Proofs.EfiStore
import Zsbl.Proofs.KeyFields
import Zsbl.Proofs.Akcipher
import Zsbl.Proofs.KeyDecoding
import Zsbl.Proofs.SignatureReader
import Zsbl.Proofs.Sm2Digest
import Zsbl.Proofs.PkaCalls
import Zsbl.Proofs.PkaOperands
import Zsbl.Proofs.RsaVerify
import Zsbl.Proofs.Sm2Verify
import Zsbl.Proofs.ImageLoad
import Zsbl.Proofs.SecureLoad
import Zsbl.Proofs.RootOfTrust
import Zsbl.Proofs.EfiWalk
import Zsbl.Proofs.FixedBuffers
import Zsbl.Proofs.MemoryNode
import Zsbl.Proofs.Mmio
import Zsbl.Proofs.Stdio
import Zsbl.Proofs.StringContract
import Zsbl.Proofs.Sysfs
import Zsbl.Proofs.Mac
import Zsbl.Proofs.AutomountNames
import Zsbl.Proofs.AutomountTurn
import Zsbl.Proofs.AutomountRecord
import Zsbl.Proofs.Automount
import Zsbl.Proofs.FatfsMount
import Zsbl.Lib.BlockHash
import Zsbl.Lib.Rounds
import Zsbl.Lib.Sha2
import Zsbl.Lib.Sm3
import Zsbl.Libs.Sha256
import Zsbl.Libs.Sm3
import Zsbl.Libs.Digests
import Zsbl.Proofs.Sha256
import Zsbl.Proofs.Sm3
import Zsbl.Proofs.Digests
import Zsbl.Proofs.ConfigText
import Zsbl.Lib.OrderedTree
import Zsbl.Libs.Fdt
import Zsbl.Proofs.FdtImage
import Zsbl.Proofs.FdtProp
import Zsbl.Proofs.FdtMemory
import Zsbl.Proofs.FdtStore
