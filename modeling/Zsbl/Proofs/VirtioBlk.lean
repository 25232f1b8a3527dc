/-
Module: Zsbl.Proofs.VirtioBlk
Purpose: Driver and device of the virtio block driver move along the rings with one request
  in flight, for any number of requests.
Trusted boundary: none
Main exports:
  Flight, slotOf, RingAt, RingAt.step, RingAt.reachable, setupQueue_ready, RingDisciplined,
  RingAt.disciplined, virtio_ring_discipline
-/
import Zsbl.Drivers.VirtioBlk

namespace Zsbl.Drivers

open Zsbl.Lib

/-! ## One request in flight -/

/-- How many requests the driver has written and published, the device has taken and
completed, and the driver has returned from. -/
structure Flight where
  written : Nat
  published : Nat
  taken : Nat
  completed : Nat
  returned : Nat
  published_le : published ≤ written
  taken_le : taken ≤ published
  completed_le : completed ≤ taken
  returned_le : returned ≤ completed
  single : written ≤ returned + 1

def Flight.start : Flight :=
  { written := 0, published := 0, taken := 0, completed := 0, returned := 0
    published_le := Nat.le_refl 0, taken_le := Nat.le_refl 0, completed_le := Nat.le_refl 0
    returned_le := Nat.le_refl 0, single := Nat.zero_le 1 }

namespace Flight

/-- When no request is in flight, all counts are the same. -/
theorem idle (flight : Flight) (none : flight.written = flight.returned) :
    flight.published = flight.returned ∧ flight.taken = flight.returned ∧
      flight.completed = flight.returned := by
  have := flight.published_le
  have := flight.taken_le
  have := flight.completed_le
  have := flight.returned_le
  omega

def write (flight : Flight) (none : flight.written = flight.returned) : Flight :=
  { flight with
    written := flight.written + 1
    published_le := Nat.le_succ_of_le flight.published_le
    single := Nat.succ_le_succ (Nat.le_of_eq none) }

def publish (flight : Flight) (ready : flight.published < flight.written) : Flight :=
  { flight with
    published := flight.published + 1
    published_le := ready
    taken_le := Nat.le_succ_of_le flight.taken_le }

def take (flight : Flight) (ready : flight.taken < flight.published) : Flight :=
  { flight with
    taken := flight.taken + 1
    taken_le := ready
    completed_le := Nat.le_succ_of_le flight.completed_le }

def complete (flight : Flight) (ready : flight.completed < flight.taken) : Flight :=
  { flight with
    completed := flight.completed + 1
    completed_le := ready
    returned_le := Nat.le_succ_of_le flight.returned_le }

def finish (flight : Flight) (ready : flight.returned < flight.completed) : Flight :=
  { flight with
    returned := flight.returned + 1
    returned_le := ready
    single := Nat.le_succ_of_le flight.single }

/-- Each count is at most one behind the one before it. -/
theorem near (flight : Flight) :
    flight.published ≤ flight.taken + 1 ∧ flight.taken ≤ flight.completed + 1 ∧
      flight.completed ≤ flight.returned + 1 := by
  have := flight.published_le
  have := flight.taken_le
  have := flight.completed_le
  have := flight.returned_le
  have := flight.single
  omega

end Flight

/-- Counters of sixteen bits tell apart numbers that are at most one apart. -/
theorem counter_eq_iff {first second : Nat} (le : first ≤ second) (near : second ≤ first + 1) :
    BitVec.ofNat 16 first = BitVec.ofNat 16 second ↔ first = second := by
  constructor
  · intro same
    have residues := congrArg BitVec.toNat same
    rw [BitVec.toNat_ofNat, BitVec.toNat_ofNat] at residues
    omega
  · exact fun same => congrArg _ same

theorem counter_succ (count : Nat) : BitVec.ofNat 16 count + 1 = BitVec.ofNat 16 (count + 1) := by
  rw [BitVec.ofNat_add]
  rfl

/-- The slot of a request. -/
def slotOf (qsize : BitVec 32) (request : Nat) : Nat := request % 2 ^ 16 % qsize.toNat

theorem slots_succ (qsize : BitVec 32) (count : Nat) :
    (List.range count).map (slotOf qsize) ++ [slotOf qsize count] =
      (List.range (count + 1)).map (slotOf qsize) := by
  rw [List.range_succ, List.map_append]
  rfl

theorem availSlot_eq {vb : VirtioBlk} {count : Nat} (idx : vb.avail.idx = BitVec.ofNat 16 count) :
    vb.availSlot = slotOf vb.qsize count := by
  unfold VirtioBlk.availSlot slotOf
  rw [idx, BitVec.toNat_umod, BitVec.toNat_setWidth, BitVec.toNat_ofNat]
  congr 1
  omega

theorem deviceSlot_eq {device : VirtioDevice} {count : Nat} (qsize : BitVec 32)
    (idx : device.lastAvail = BitVec.ofNat 16 count) :
    device.lastAvail.toNat % qsize.toNat = slotOf qsize count := by
  rw [idx, BitVec.toNat_ofNat]
  rfl

/-- Where the driver is in its call. -/
def RwPhase.At (flight : Flight) : RwPhase → Prop
  | .idle => flight.written = flight.returned
  | .posted _ => flight.written = flight.returned + 1 ∧ flight.published = flight.returned
  | .published _ => flight.published = flight.returned + 1
  | .waiting _ => flight.published = flight.returned + 1

/-- What the device does leaves the driver where it is. -/
theorem RwPhase.At.of_same {phase : RwPhase} {flight other : Flight} (here : phase.At flight)
    (written : other.written = flight.written) (published : other.published = flight.published)
    (returned : other.returned = flight.returned) : phase.At other := by
  cases phase with
  | idle => exact written.trans (here.trans returned.symm)
  | posted bytes =>
      obtain ⟨isWritten, notPublished⟩ := here
      constructor
      · rw [written, returned, isWritten]
      · rw [published, returned, notPublished]
  | published bytes =>
      have isPublished : flight.published = flight.returned + 1 := here
      rw [← published, ← returned] at isPublished
      exact isPublished
  | waiting bytes =>
      have isPublished : flight.published = flight.returned + 1 := here
      rw [← published, ← returned] at isPublished
      exact isPublished

/-- The queue as the driver has set it up. -/
structure QueueReady (qsize : BitVec 32) (s : VirtioSystem) : Prop where
  room : 3 ≤ qsize.toNat
  size : s.vb.qsize = qsize
  queueNum : s.mmio.queueNum = qsize
  ring : s.vb.avail.ring.length = qsize.toNat + 1
  names : s.mmio.Names s.vb

/-- Both sides of the rings, for the requests so far. -/
structure RingAt (qsize : BitVec 32) (s : VirtioSystem) (flight : Flight) : Prop where
  queue : QueueReady qsize s
  phase : s.phase.At flight
  descriptors : ∀ index ∈ s.log.descriptors, index < 3
  written : s.log.written = (List.range flight.written).map (slotOf qsize)
  availIdx : s.vb.avail.idx = BitVec.ofNat 16 flight.published
  taken : s.log.taken = (List.range flight.taken).map (slotOf qsize)
  lastAvail : s.device.lastAvail = BitVec.ofNat 16 flight.taken
  working : s.device.working.map Prod.fst =
    List.range' flight.completed (flight.taken - flight.completed)
  posted : s.log.posted = List.range flight.completed
  usedIdx : s.vb.used.idx = BitVec.ofNat 16 flight.completed
  lastUsedIdx : s.vb.lastUsedIdx = BitVec.ofNat 16 flight.returned
  returned : s.log.returned = flight.returned

/-- The chain of a request has three descriptors. -/
theorem rwDescs_touched (vb : VirtioBlk) (bytes buf : BitVec 64) (write : Bool) :
    (rwDescs vb bytes buf write).flatMap touched = [0, 1, 1, 2, 2] := by
  cases write <;>
    simp [rwDescs, touched, VIRTQ_DESC_F_NEXT, VIRTQ_DESC_F_WRITE]

variable {qsize : BitVec 32} {s s' : VirtioSystem} {flight : Flight}

/-- A request takes three free descriptors for its head, data and status. -/
theorem RingAt.rw (ring : RingAt qsize s flight) {offset size buf : BitVec 64} {write : Bool}
    (step : virtioStep s (.rw offset size buf write) = some s') :
    ∃ flight', RingAt qsize s' flight' := by
  obtain ⟨vb, mmio, phase, device, log⟩ := s
  cases phase with
  | idle =>
      obtain rfl := Option.some.inj step
      have idle : flight.written = flight.returned := ring.phase
      obtain ⟨published, -, -⟩ := flight.idle idle
      have sameSize : vb.qsize = qsize := ring.queue.size
      have slot := availSlot_eq ring.availIdx
      rw [published, ← idle, sameSize] at slot
      exact ⟨flight.write idle,
        { queue :=
            { room := ring.queue.room, size := sameSize, queueNum := ring.queue.queueNum
              ring := (List.length_set).trans ring.queue.ring, names := ring.queue.names }
          phase := ⟨congrArg (· + 1) idle, published⟩
          descriptors := by
            intro index touched
            rcases List.mem_append.mp touched with old | new
            · exact ring.descriptors index old
            · rw [rwDescs_touched] at new
              simp at new
              omega
          written := by
            have log := slots_succ qsize flight.written
            rw [← ring.written, ← slot] at log
            exact log
          availIdx := ring.availIdx, taken := ring.taken, lastAvail := ring.lastAvail
          working := ring.working, posted := ring.posted, usedIdx := ring.usedIdx
          lastUsedIdx := ring.lastUsedIdx, returned := ring.returned }⟩
  | posted bytes => cases step
  | published bytes => cases step
  | waiting bytes => cases step

/-- The chain is published at the next place of the available ring. -/
theorem RingAt.publish (ring : RingAt qsize s flight) (step : virtioStep s .publish = some s') :
    ∃ flight', RingAt qsize s' flight' := by
  obtain ⟨vb, mmio, phase, device, log⟩ := s
  cases phase with
  | posted bytes =>
      obtain rfl := Option.some.inj step
      obtain ⟨written, published⟩ : flight.written = flight.returned + 1 ∧
        flight.published = flight.returned := ring.phase
      have ready : flight.published < flight.written := by omega
      have count := counter_succ flight.published
      rw [← ring.availIdx] at count
      exact ⟨flight.publish ready,
        { queue :=
            { room := ring.queue.room, size := ring.queue.size, queueNum := ring.queue.queueNum
              ring := ring.queue.ring, names := ring.queue.names }
          phase := congrArg (· + 1) published
          availIdx := count
          descriptors := ring.descriptors, written := ring.written, taken := ring.taken
          lastAvail := ring.lastAvail, working := ring.working, posted := ring.posted
          usedIdx := ring.usedIdx, lastUsedIdx := ring.lastUsedIdx, returned := ring.returned }⟩
  | idle => cases step
  | published bytes => cases step
  | waiting bytes => cases step

/-- The device is notified of the chain in flight. -/
theorem RingAt.notify (ring : RingAt qsize s flight) (step : virtioStep s .notify = some s') :
    RingAt qsize s' flight := by
  obtain ⟨vb, mmio, phase, device, log⟩ := s
  cases phase with
  | published bytes =>
      obtain rfl := Option.some.inj step
      exact
        { ring with
          queue :=
            { room := ring.queue.room, size := ring.queue.size, queueNum := ring.queue.queueNum
              ring := ring.queue.ring, names := ring.queue.names }
          phase := ring.phase }
  | idle => cases step
  | posted bytes => cases step
  | waiting bytes => cases step

/-- The driver waits until the device has used the chain. -/
theorem RingAt.spin (ring : RingAt qsize s flight) (step : virtioStep s .spin = some s') :
    RingAt qsize s' flight := by
  obtain ⟨vb, mmio, phase, device, log⟩ := s
  cases phase with
  | waiting bytes =>
      simp only [virtioStep] at step
      split at step
      · obtain rfl := Option.some.inj step
        exact ring
      · cases step
  | idle => cases step
  | posted bytes => cases step
  | published bytes => cases step

/-- The driver waits until its request is the one that was completed last. -/
theorem RingAt.waits (ring : RingAt qsize s flight) :
    s.vb.used.idx ≠ s.vb.lastUsedIdx ↔ flight.returned < flight.completed := by
  obtain ⟨-, -, near⟩ := flight.near
  have same := counter_eq_iff flight.returned_le near
  have order := flight.returned_le
  rw [ring.usedIdx, ring.lastUsedIdx, ne_comm, ne_eq, same]
  omega

/-- The request ends with its chain used and its descriptors free. -/
theorem RingAt.done (ring : RingAt qsize s flight) {result : BitVec 64}
    (step : virtioStep s (.done result) = some s') : ∃ flight', RingAt qsize s' flight' := by
  obtain ⟨vb, mmio, phase, device, log⟩ := s
  cases phase with
  | waiting bytes =>
      simp only [virtioStep] at step
      split at step
      · next answered =>
        obtain rfl := Option.some.inj step
        have ready : flight.returned < flight.completed := ring.waits.mp answered.1
        have published : flight.published = flight.returned + 1 := ring.phase
        have written : flight.written = flight.returned + 1 :=
          Nat.le_antisymm flight.single (published ▸ flight.published_le)
        have count := counter_succ flight.returned
        rw [← ring.lastUsedIdx] at count
        exact ⟨flight.finish ready,
          { queue :=
              { room := ring.queue.room, size := ring.queue.size, queueNum := ring.queue.queueNum
                ring := ring.queue.ring, names := ring.queue.names }
            phase := written
            lastUsedIdx := count
            returned := congrArg (· + 1) ring.returned
            descriptors := ring.descriptors, written := ring.written, availIdx := ring.availIdx
            taken := ring.taken, lastAvail := ring.lastAvail, working := ring.working
            posted := ring.posted, usedIdx := ring.usedIdx }⟩
      · cases step
  | idle => cases step
  | posted bytes => cases step
  | published bytes => cases step

/-- The device takes the chain that was published. -/
theorem RingAt.take (ring : RingAt qsize s flight) (step : virtioStep s .take = some s') :
    ∃ flight', RingAt qsize s' flight' := by
  simp only [virtioStep] at step
  split at step
  · next seen =>
    split at step
    · next head read =>
      obtain rfl := Option.some.inj step
      obtain ⟨near, -, -⟩ := flight.near
      have order := flight.taken_le
      have sameIndex := counter_eq_iff order near
      rw [← ring.lastAvail, ← ring.availIdx] at sameIndex
      have ready : flight.taken < flight.published :=
        Nat.lt_of_le_of_ne order fun same => seen.2 (sameIndex.mpr same)
      have slot := deviceSlot_eq qsize ring.lastAvail
      rw [← ring.queue.queueNum] at slot
      have count := counter_succ flight.taken
      rw [← ring.lastAvail] at count
      have number : s.log.taken.length = flight.taken := by
        rw [ring.taken, List.length_map, List.length_range]
      have log := slots_succ qsize flight.taken
      rw [← ring.taken, ← ring.queue.queueNum, ← slot] at log
      have more : flight.taken + 1 - flight.completed = flight.taken - flight.completed + 1 :=
        Nat.succ_sub flight.completed_le
      have next : flight.completed + 1 * (flight.taken - flight.completed) = flight.taken := by
        rw [Nat.one_mul, Nat.add_sub_cancel' flight.completed_le]
      exact ⟨flight.take ready,
        { queue :=
            { room := ring.queue.room, size := ring.queue.size, queueNum := ring.queue.queueNum
              ring := ring.queue.ring, names := ring.queue.names }
          phase := ring.phase.of_same rfl rfl rfl
          taken := log.trans (congrArg
            (fun size => (List.range (flight.taken + 1)).map (slotOf size)) ring.queue.queueNum)
          lastAvail := count
          working := by
            have working : s.device.working.map Prod.fst ++ [s.log.taken.length] =
                List.range' flight.completed (flight.taken + 1 - flight.completed) := by
              rw [number, ring.working, more, List.range'_concat, next]
            exact List.map_append.trans working
          descriptors := ring.descriptors, written := ring.written, availIdx := ring.availIdx
          posted := ring.posted, usedIdx := ring.usedIdx, lastUsedIdx := ring.lastUsedIdx
          returned := ring.returned }⟩
    · cases step
  · cases step

/-- The device uses the chain that it has taken. -/
theorem RingAt.complete (ring : RingAt qsize s flight) {request : Nat × BitVec 16}
    {status : UInt8} {len : BitVec 32}
    (step : virtioStep s (.complete request status len) = some s') :
    ∃ flight', RingAt qsize s' flight' := by
  simp only [virtioStep] at step
  split at step
  · next working =>
    obtain rfl := Option.some.inj step
    obtain ⟨-, near, -⟩ := flight.near
    have isWorking :
        request.1 ∈ List.range' flight.completed (flight.taken - flight.completed) := by
      rw [← ring.working]
      exact List.mem_map_of_mem working
    obtain ⟨lower, upper⟩ := List.mem_range'_1.mp isWorking
    have number : request.1 = flight.completed := by omega
    have ready : flight.completed < flight.taken := by omega
    have count := counter_succ flight.completed
    rw [← ring.usedIdx] at count
    have only : s.device.working = [request] := by
      have length := congrArg List.length ring.working
      rw [List.length_map, List.length_range', show flight.taken - flight.completed = 1 by omega]
        at length
      obtain ⟨first, only⟩ := List.length_eq_one_iff.mp length
      rw [only] at working ⊢
      rw [List.mem_singleton.mp working]
    exact ⟨flight.complete ready,
      { queue :=
          { room := ring.queue.room, size := ring.queue.size, queueNum := ring.queue.queueNum
            ring := ring.queue.ring, names := ring.queue.names }
        phase := ring.phase.of_same rfl rfl rfl
        working := by
          have none : flight.taken - (flight.completed + 1) = 0 := by omega
          have left : (s.device.working.erase request).map Prod.fst =
              List.range' (flight.completed + 1) (flight.taken - (flight.completed + 1)) := by
            rw [only, none, List.erase_cons_head]
            rfl
          exact left
        posted := by
          have posted : s.log.posted ++ [request.1] = List.range (flight.completed + 1) := by
            rw [ring.posted, number, List.range_succ]
          exact posted
        usedIdx := count
        descriptors := ring.descriptors, written := ring.written, availIdx := ring.availIdx
        taken := ring.taken, lastAvail := ring.lastAvail, lastUsedIdx := ring.lastUsedIdx
        returned := ring.returned }⟩
  · cases step

/-- Driver and device go on with one request in flight. -/
theorem RingAt.step (ring : RingAt qsize s flight) {label : VirtioLabel}
    (step : virtioStep s label = some s') : ∃ flight', RingAt qsize s' flight' := by
  cases label with
  | rw offset size buf write => exact ring.rw step
  | publish => exact ring.publish step
  | notify => exact ⟨flight, ring.notify step⟩
  | spin => exact ⟨flight, ring.spin step⟩
  | done result => exact ring.done step
  | take => exact ring.take step
  | complete request status len => exact ring.complete step

/-! ## From the set-up on -/

/-- An address is written as two halves. -/
theorem halves_append (address : BitVec 64) :
    (address >>> 32).setWidth 32 ++ address.setWidth 32 = address := by
  apply BitVec.eq_of_getLsbD_eq
  intro i lt
  rw [BitVec.getLsbD_append]
  by_cases low : i < 32
  · simp [low]
  · have high : i - 32 < 32 := by omega
    have index : 32 + (i - 32) = i := by omega
    simp [low, high, index]

/-- The size of the queue for what the device reports. -/
def qsizeOf (qmax : BitVec 32) : BitVec 32 :=
  if qmax < VIRTIO_BLK_QSIZE then qmax else VIRTIO_BLK_QSIZE

theorem qsizeOf_room {qmax : BitVec 32} (room : 3 ≤ qmax.toNat) : 3 ≤ (qsizeOf qmax).toNat := by
  unfold qsizeOf
  split
  · exact room
  · decide

/-- The queue is as long as the device allows and both sides know its rings. -/
theorem setupQueue_ready {malloc : Fin 5 → Option (BitVec 64)} {mmio : VirtioMmio}
    (ok : virtioBlkSetupQueue malloc mmio = .ok (s.mmio, s.vb)) :
    s.vb.qsize = qsizeOf mmio.queueNumMax ∧ s.mmio.queueNum = qsizeOf mmio.queueNumMax ∧
      s.vb.avail.ring.length = (qsizeOf mmio.queueNumMax).toNat + 1 ∧ s.mmio.Names s.vb ∧
      s.vb.avail.idx = 0 ∧ s.vb.used.idx = 0 ∧ s.vb.lastUsedIdx = 0 := by
  unfold virtioBlkSetupQueue at ok
  by_cases inUse : mmio.queueReady ≠ 0
  · rw [if_pos inUse] at ok
    cases ok
  · by_cases none : mmio.queueNumMax = 0
    · rw [if_neg inUse] at ok
      simp [none] at ok
      cases ok
    · simp only [if_neg inUse, if_neg none] at ok
      split at ok
      · obtain ⟨mmioEq, vbEq⟩ := Prod.mk.inj (Except.ok.inj ok)
        rw [← mmioEq, ← vbEq]
        exact ⟨rfl, rfl, List.length_replicate,
          ⟨rfl, halves_append _, halves_append _, halves_append _⟩, rfl, rfl, rfl⟩
      · cases ok

/-- A queue that was set up has nothing in flight. -/
theorem RingAt.initial {qmax : BitVec 32} (room : 3 ≤ qmax.toNat)
    (start : (virtioLts qmax).init s) : RingAt (qsizeOf qmax) s Flight.start := by
  obtain ⟨malloc, mmio, rfl, ok, phase, device, log⟩ := start
  obtain ⟨size, queueNum, ring, names, availIdx, usedIdx, lastUsedIdx⟩ := setupQueue_ready ok
  exact
    { queue :=
        { room := qsizeOf_room room, size := size, queueNum := queueNum, ring := ring
          names := names }
      phase := by
        rw [phase]
        rfl
      descriptors := by simp [log]
      written := by
        rw [log]
        rfl
      availIdx := availIdx
      taken := by
        rw [log]
        rfl
      lastAvail := by
        rw [device]
        rfl
      working := by
        rw [device]
        rfl
      posted := by
        rw [log]
        rfl
      usedIdx := usedIdx, lastUsedIdx := lastUsedIdx
      returned := by
        rw [log]
        rfl }

/-- With room for the chain of a request, driver and device have one request in flight in
every state of every run. -/
theorem RingAt.reachable {qmax : BitVec 32} (room : 3 ≤ qmax.toNat)
    (reached : (virtioLts qmax).Reachable s) : ∃ flight, RingAt (qsizeOf qmax) s flight := by
  apply reached.invariant fun s => ∃ flight, RingAt (qsizeOf qmax) s flight
  · exact fun s start => ⟨Flight.start, RingAt.initial room start⟩
  · rintro s label s' - ⟨flight, ring⟩ - step
    exact ring.step step

/-- The discipline of the rings: the descriptors touched and the slots written are in the
queue, the device reads the slots that were written, a call returns only behind its own
completion, and between calls both sides have counted the calls. -/
structure RingDisciplined (s : VirtioSystem) : Prop where
  descriptors : ∀ index ∈ s.log.descriptors, index < s.vb.qsize.toNat
  slots : ∀ slot ∈ s.log.written, slot < s.vb.avail.ring.length
  taken : s.log.taken <+: s.log.written
  returned : ∀ call < s.log.returned, call ∈ s.log.posted
  waits : ∀ bytes, s.phase = .waiting bytes →
    (s.vb.used.idx ≠ s.vb.lastUsedIdx ↔ s.log.returned ∈ s.log.posted)
  indices : s.phase = .idle → s.vb.lastUsedIdx = s.vb.used.idx ∧
    s.vb.used.idx = BitVec.ofNat 16 s.log.returned ∧ s.log.returned = s.log.written.length

/-- A ring with one chain in flight at most is used as it should be. -/
theorem RingAt.disciplined (ring : RingAt qsize s flight) : RingDisciplined s where
  descriptors index touched := by
    have room := ring.queue.room
    have inChain := ring.descriptors index touched
    rw [ring.queue.size]
    omega
  slots slot isWritten := by
    have room := ring.queue.room
    rw [ring.written] at isWritten
    obtain ⟨request, -, rfl⟩ := List.mem_map.mp isWritten
    have inside : slotOf qsize request < qsize.toNat := Nat.mod_lt _ (by omega)
    rw [ring.queue.ring]
    omega
  taken := by
    have order := Nat.le_trans flight.taken_le flight.published_le
    have prior : List.range flight.taken <+: List.range flight.written := by
      rw [← Nat.add_sub_cancel' order, List.range_add]
      exact List.prefix_append _ _
    rw [ring.taken, ring.written]
    exact prior.map _
  returned call earlier := by
    have order := flight.returned_le
    rw [ring.returned] at earlier
    rw [ring.posted]
    exact List.mem_range.mpr (Nat.lt_of_lt_of_le earlier order)
  waits bytes waiting := by
    rw [ring.waits, ring.returned, ring.posted, List.mem_range]
  indices idle := by
    have same : flight.written = flight.returned := by
      have phase := ring.phase
      rw [idle] at phase
      exact phase
    obtain ⟨-, -, completed⟩ := flight.idle same
    refine ⟨?_, ?_, ?_⟩
    · rw [ring.usedIdx, ring.lastUsedIdx, completed]
    · rw [ring.usedIdx, ring.returned, completed]
    · rw [ring.written, ring.returned, List.length_map, List.length_range, same]

/-- The set-up accepts every queue that is not in use and not empty. -/
theorem setupQueue_accepts {malloc : Fin 5 → Option (BitVec 64)} {mmio : VirtioMmio}
    (memory : ∀ i, (malloc i).isSome) (free : mmio.queueReady = 0)
    (reported : mmio.queueNumMax ≠ 0) :
    ∃ queue, virtioBlkSetupQueue malloc mmio = .ok queue := by
  obtain ⟨desc, first⟩ := Option.isSome_iff_exists.mp (memory 0)
  obtain ⟨avail, second⟩ := Option.isSome_iff_exists.mp (memory 1)
  obtain ⟨used, third⟩ := Option.isSome_iff_exists.mp (memory 2)
  obtain ⟨req, fourth⟩ := Option.isSome_iff_exists.mp (memory 3)
  obtain ⟨status, fifth⟩ := Option.isSome_iff_exists.mp (memory 4)
  have notInUse : ¬ mmio.queueReady ≠ 0 := fun inUse => inUse free
  unfold virtioBlkSetupQueue
  simp only [if_neg notInUse, if_neg reported, first, second, third, fourth, fifth]
  exact ⟨_, rfl⟩

/-- A call writes three descriptors, whatever the size of the queue. -/
theorem small_queue_overrun {qmax : BitVec 32} (reported : qmax ≠ 0) (small : qmax.toNat < 3) :
    ∃ s, (virtioLts qmax).Reachable s ∧ 2 ∈ s.log.descriptors ∧ s.vb.qsize.toNat ≤ 2 := by
  let registers : VirtioMmio :=
    { queueReady := 0, queueNumMax := qmax, queueNum := 0, queueDescLow := 0, queueDescHigh := 0
      queueDriverLow := 0, queueDriverHigh := 0, queueDeviceLow := 0, queueDeviceHigh := 0 }
  have accepted : ∃ queue, virtioBlkSetupQueue (fun _ => some 0) registers = .ok queue :=
    setupQueue_accepts (fun _ => rfl) rfl reported
  obtain ⟨⟨mmio, vb⟩, ok⟩ := accepted
  let start : VirtioSystem :=
    { vb := vb, mmio := mmio, phase := .idle, device := { lastAvail := 0, working := [] }
      log := { descriptors := [], written := [], taken := [], posted := [], returned := 0 } }
  obtain ⟨size, -⟩ := setupQueue_ready (s := start) ok
  have isInit : (virtioLts qmax).init start := ⟨_, registers, rfl, ok, rfl, rfl, rfl⟩
  have notFull : qmax < VIRTIO_BLK_QSIZE :=
    BitVec.lt_def.mpr (Nat.lt_trans small (by decide))
  have first : (virtioLts qmax).Reachable start := .initial isInit
  have called : (virtioLts qmax).step start (.rw 0 512 0 false) _ := rfl
  refine ⟨_, first.step trivial called, ?_, ?_⟩
  · simp [rwDescs_touched]
  · have sameSize : vb.qsize = qmax := size.trans (if_pos notFull)
    have tooSmall : vb.qsize.toNat ≤ 2 := by
      rw [sameSize]
      omega
    exact tooSmall

/-- The rings are kept to in every run exactly when the queue has room for the chain of a
request. -/
theorem virtio_ring_discipline {qmax : BitVec 32} (reported : qmax ≠ 0) :
    (∀ s, (virtioLts qmax).Reachable s → RingDisciplined s) ↔ 3 ≤ qmax.toNat := by
  constructor
  · intro disciplined
    by_contra small
    obtain ⟨s, reached, touched, size⟩ := small_queue_overrun reported (by omega)
    have inside := (disciplined s reached).descriptors 2 touched
    omega
  · intro room s reached
    obtain ⟨flight, ring⟩ := RingAt.reachable room reached
    exact ring.disciplined

/-- A read of one block goes through. -/
example :
    let mmio : VirtioMmio :=
      { queueReady := 0, queueNumMax := 5, queueNum := 0, queueDescLow := 0, queueDescHigh := 0
        queueDriverLow := 0, queueDriverHigh := 0, queueDeviceLow := 0, queueDeviceHigh := 0 }
    ((virtioBlkSetupQueue (fun _ => some 0x80000000) mmio).toOption.bind fun (mmio, vb) =>
      (runSteps virtioStep
        { vb := vb, mmio := mmio, phase := .idle, device := { lastAvail := 0, working := [] }
          log := { descriptors := [], written := [], taken := [], posted := [], returned := 0 } }
        [.rw 1024 512 0x90000000 false, .publish, .take, .notify, .spin, .complete (0, 0) 0 513,
          .done 512]).map fun s => (s.vb.lastUsedIdx, s.vb.req.sector, s.log.returned)) =
      some (1, 2, 1) := by
  decide

theorem virtio_ring_discipline_five :
    (∀ s, (virtioLts 5).Reachable s → RingDisciplined s) ↔ 3 ≤ (5#32).toNat :=
  virtio_ring_discipline (by decide)

theorem queue_of_two_overrun : ¬ ∀ s, (virtioLts 2).Reachable s → RingDisciplined s := by
  intro disciplined
  have two : (2 : BitVec 32) ≠ 0 := by decide
  obtain ⟨s, reached, touched, size⟩ := small_queue_overrun two (by decide)
  have inside := (disciplined s reached).descriptors 2 touched
  omega

end Zsbl.Drivers
