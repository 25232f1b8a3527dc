/-
Module: Zsbl.Drivers.VirtioBlk
Purpose: The queue of the virtio block driver, drivers/blkdev/virtio-blk/virtio-blk.c, and
  a device that serves it while the driver runs.
Trusted boundary: the fences, which make the writes of both sides visible in order.  A store
  outside of an allocation is not followed further: it is in the log.
Main exports:
  VirtioBlk, virtioBlkSetupQueue, rwDescs, VirtioSystem, VirtioLabel, virtioStep, virtioLts
-/
import Zsbl.Include.Libc
import Zsbl.Lib.Runs

namespace Zsbl.Drivers

open Zsbl.Lib

/-! ## The queue -/

structure VirtqDesc where
  addr : BitVec 64
  len : BitVec 32
  flags : BitVec 16
  next : BitVec 16

structure VirtqAvail where
  idx : BitVec 16
  ring : List (BitVec 16)

structure VirtqUsedElem where
  id : BitVec 32
  len : BitVec 32

structure VirtqUsed where
  idx : BitVec 16
  ring : List VirtqUsedElem

structure VirtioBlkReq where
  type : BitVec 32
  reserved : BitVec 32
  sector : BitVec 64

/-- The driver's data with what its pointers point to; the `…At` are the pointers. -/
structure VirtioBlk where
  qsize : BitVec 32
  desc : List VirtqDesc
  avail : VirtqAvail
  used : VirtqUsed
  lastUsedIdx : BitVec 16
  req : VirtioBlkReq
  status : UInt8
  descAt : BitVec 64
  availAt : BitVec 64
  usedAt : BitVec 64
  reqAt : BitVec 64
  statusAt : BitVec 64

def VIRTIO_BLK_QSIZE : BitVec 32 := 8

def VIRTQ_DESC_F_NEXT : BitVec 16 := 1

def VIRTQ_DESC_F_WRITE : BitVec 16 := 2

def VIRTIO_BLK_T_IN : BitVec 32 := 0

def VIRTIO_BLK_T_OUT : BitVec 32 := 1

/-- The registers of queue 0. -/
structure VirtioMmio where
  queueReady : BitVec 32
  queueNumMax : BitVec 32
  queueNum : BitVec 32
  queueDescLow : BitVec 32
  queueDescHigh : BitVec 32
  queueDriverLow : BitVec 32
  queueDriverHigh : BitVec 32
  queueDeviceLow : BitVec 32
  queueDeviceHigh : BitVec 32

/-- `virtio_blk_setup_queue`, with what its five calls of `malloc` return. -/
def virtioBlkSetupQueue (malloc : Fin 5 → Option (BitVec 64)) (mmio : VirtioMmio) :
    Except Int (VirtioMmio × VirtioBlk) := do
  if mmio.queueReady ≠ 0 then throw (- EBUSY)
  let qmax := mmio.queueNumMax
  if qmax = 0 then throw (- ENODEV)
  let qsize := if qmax < VIRTIO_BLK_QSIZE then qmax else VIRTIO_BLK_QSIZE
  match malloc 0, malloc 1, malloc 2, malloc 3, malloc 4 with
  | some desc, some avail, some used, some req, some status =>
      let vb : VirtioBlk :=
        { qsize := qsize
          desc := List.replicate qsize.toNat { addr := 0, len := 0, flags := 0, next := 0 }
          avail := { idx := 0, ring := List.replicate (qsize.toNat + 1) 0 }
          used := { idx := 0, ring := List.replicate qsize.toNat { id := 0, len := 0 } }
          lastUsedIdx := 0
          req := { type := 0, reserved := 0, sector := 0 }
          status := 0
          descAt := desc, availAt := avail, usedAt := used, reqAt := req, statusAt := status }
      let mmio :=
        { mmio with
          queueNum := vb.qsize
          queueDescLow := vb.descAt.setWidth 32
          queueDescHigh := (vb.descAt >>> 32).setWidth 32
          queueDriverLow := vb.availAt.setWidth 32
          queueDriverHigh := (vb.availAt >>> 32).setWidth 32
          queueDeviceLow := vb.usedAt.setWidth 32
          queueDeviceHigh := (vb.usedAt >>> 32).setWidth 32
          queueReady := 1 }
      return (mmio, vb)
  | _, _, _, _, _ => throw (- ENOMEM)

/-! ## Requests -/

/-- The descriptors that `virtio_blk_rw` writes, with their indices. -/
def rwDescs (vb : VirtioBlk) (bytes buf : BitVec 64) (write : Bool) : List (Nat × VirtqDesc) :=
  [(0, { addr := vb.reqAt, len := 16, flags := VIRTQ_DESC_F_NEXT, next := 1 }),
    (1, { addr := buf, len := bytes.setWidth 32
          flags := VIRTQ_DESC_F_NEXT ||| if write then 0 else VIRTQ_DESC_F_WRITE, next := 2 }),
    (2, { addr := vb.statusAt, len := 1, flags := VIRTQ_DESC_F_WRITE, next := 0 })]

/-- The index of a descriptor that is written, and the one that it links to. -/
def touched (entry : Nat × VirtqDesc) : List Nat :=
  entry.1 :: if entry.2.flags &&& VIRTQ_DESC_F_NEXT ≠ 0 then [entry.2.next.toNat] else []

/-- The slot of the available ring that `virtio_blk_rw` writes. -/
def VirtioBlk.availSlot (vb : VirtioBlk) : Nat := (vb.avail.idx.setWidth 32 % vb.qsize).toNat

/-- `virtio_blk_rw` up to the slot of the available ring. -/
def VirtioBlk.prepare (vb : VirtioBlk) (sector bytes buf : BitVec 64) (write : Bool) :
    VirtioBlk :=
  { vb with
    req := { type := if write then VIRTIO_BLK_T_OUT else VIRTIO_BLK_T_IN, reserved := 0
             sector := sector }
    status := 0xff
    desc := (rwDescs vb bytes buf write).foldl (fun desc entry => desc.set entry.1 entry.2) vb.desc
    avail := { vb.avail with ring := vb.avail.ring.set vb.availSlot 0 } }

/-- Where `virtio_blk_rw` is, with `bytes`: the slot is written, `idx` is counted, the
device is notified. -/
inductive RwPhase where
  | idle
  | posted (bytes : BitVec 64)
  | published (bytes : BitVec 64)
  | waiting (bytes : BitVec 64)

/-- The device: the index of the next slot it takes, and the requests it has taken, each with
its number and the head of its chain. -/
structure VirtioDevice where
  lastAvail : BitVec 16
  working : List (Nat × BitVec 16)

/-- What went on so far: the descriptors touched, the slots written by the driver and read
by the device, the numbers of the requests that were completed, and how many calls are
over. -/
structure RingLog where
  descriptors : List Nat
  written : List Nat
  taken : List Nat
  posted : List Nat
  returned : Nat

structure VirtioSystem where
  vb : VirtioBlk
  mmio : VirtioMmio
  phase : RwPhase
  device : VirtioDevice
  log : RingLog

inductive VirtioLabel where
  /-- A call of `virtio_blk_read` or `virtio_blk_write`. -/
  | rw (offset size buf : BitVec 64) (write : Bool)
  /-- `vb->avail->idx++`. -/
  | publish
  /-- The write to `VIRTIO_MMIO_QUEUE_NOTIFY`. -/
  | notify
  /-- A round of the wait for the device. -/
  | spin
  /-- The call is over. -/
  | done (result : BitVec 64)
  /-- The device takes the next slot. -/
  | take
  /-- The device completes a request that it has taken. -/
  | complete (request : Nat × BitVec 16) (status : UInt8) (len : BitVec 32)

/-- The registers name the queue. -/
def VirtioMmio.Names (mmio : VirtioMmio) (vb : VirtioBlk) : Prop :=
  mmio.queueReady = 1 ∧ mmio.queueDescHigh ++ mmio.queueDescLow = vb.descAt ∧
    mmio.queueDriverHigh ++ mmio.queueDriverLow = vb.availAt ∧
    mmio.queueDeviceHigh ++ mmio.queueDeviceLow = vb.usedAt

instance (mmio : VirtioMmio) (vb : VirtioBlk) : Decidable (mmio.Names vb) :=
  inferInstanceAs (Decidable (_ ∧ _))

/-! ## Driver and device -/

/-- The value that a call returns. -/
def VirtioBlk.result (vb : VirtioBlk) (bytes : BitVec 64) : BitVec 64 :=
  if vb.status ≠ 0 then BitVec.ofInt 64 (- EIO) else bytes

/-- What the device writes when a request is complete. -/
def VirtioBlk.completed (vb : VirtioBlk) (queueNum : BitVec 32) (head : BitVec 16)
    (status : UInt8) (len : BitVec 32) : VirtioBlk :=
  { vb with
    status := status
    used := { idx := vb.used.idx + 1
              ring := vb.used.ring.set (vb.used.idx.toNat % queueNum.toNat)
                { id := head.setWidth 32, len := len } } }

def virtioStep (s : VirtioSystem) : VirtioLabel → Option VirtioSystem
  | .rw offset size buf write =>
      match s.phase with
      | .idle =>
          let bytes := size / 512 * 512
          some { s with
            vb := s.vb.prepare (offset / 512) bytes buf write
            phase := .posted bytes
            log := { s.log with
              descriptors :=
                s.log.descriptors ++ (rwDescs s.vb bytes buf write).flatMap touched
              written := s.log.written ++ [s.vb.availSlot] } }
      | _ => none
  | .publish =>
      match s.phase with
      | .posted bytes =>
          some { s with
            vb := { s.vb with avail := { s.vb.avail with idx := s.vb.avail.idx + 1 } }
            phase := .published bytes }
      | _ => none
  | .notify =>
      match s.phase with
      | .published bytes => some { s with phase := .waiting bytes }
      | _ => none
  | .spin =>
      match s.phase with
      | .waiting _ => if s.vb.used.idx = s.vb.lastUsedIdx then some s else none
      | _ => none
  | .done result =>
      match s.phase with
      | .waiting bytes =>
          if s.vb.used.idx ≠ s.vb.lastUsedIdx ∧ result = s.vb.result bytes then
            some { s with
              vb := { s.vb with lastUsedIdx := s.vb.lastUsedIdx + 1 }
              phase := .idle
              log := { s.log with returned := s.log.returned + 1 } }
          else none
      | _ => none
  | .take =>
      if s.mmio.Names s.vb ∧ s.device.lastAvail ≠ s.vb.avail.idx then
        let slot := s.device.lastAvail.toNat % s.mmio.queueNum.toNat
        match s.vb.avail.ring[slot]? with
        | some head =>
            some { s with
              device :=
                { lastAvail := s.device.lastAvail + 1
                  working := s.device.working ++ [(s.log.taken.length, head)] }
              log := { s.log with taken := s.log.taken ++ [slot] } }
        | none => none
      else none
  | .complete request status len =>
      if request ∈ s.device.working then
        some { s with
          vb := s.vb.completed s.mmio.queueNum request.2 status len
          device := { s.device with working := s.device.working.erase request }
          log := { s.log with posted := s.log.posted ++ [request.1] } }
      else none

/-- The runs of driver and device from the set-up of the queue on, for the size that the
device reports. -/
def virtioLts (qmax : BitVec 32) : Lts VirtioSystem VirtioLabel where
  init s := ∃ malloc mmio, mmio.queueNumMax = qmax ∧
    virtioBlkSetupQueue malloc mmio = .ok (s.mmio, s.vb) ∧
    s.phase = .idle ∧ s.device = { lastAvail := 0, working := [] } ∧
    s.log = { descriptors := [], written := [], taken := [], posted := [], returned := 0 }
  step s label s' := virtioStep s label = some s'

end Zsbl.Drivers
