import MemPerf.Lib.ByteRing
import MemPerf.Lib.Word
import MemPerf.Values

/-!
# Reading the perf ring

`perf_mmap_read` and its callers. The kernel writes records into a ring of
`DATA_MAPSIZE` bytes and counts the bytes in `data_head`; a read takes what
came since `prev_head`, in place or, when it runs over the end of the ring,
out of a copy in two pieces, and walks it record by record by the size in
each header.

The positions are 64-bit and only grow. What is read is told in two steps:
in both cases the buffer that is walked shows the bytes of the stream
(`perfMmapRead_spec`), and a walk over the bytes of some records is a walk
from record to record (`readLoop_records`).
-/

namespace MemPerf

open ByteRing Word

/-- `DATA_MAPSIZE` -/
@[simp] abbrev dataMapsize : Nat := 128 * pagesize

/-- `LAST_USER_ADDR` -/
@[simp] abbrev lastUserAddr : Nat := 0x7fffffffffff

/-- `PERF_RECORD_SAMPLE` -/
@[simp] abbrev perfRecordSample : Nat := 9

inductive MemAccessType where
  | none
  | load
  | store
  | pfetch
  | exec
  | unknown
deriving DecidableEq, Repr

/-- A call of `ShadowMemory::doMemoryAccess`. -/
structure MemoryAccess where
  address : Nat
  accessType : MemAccessType
  miss : Bool
deriving DecidableEq, Repr

/-- What one turn of the loop does with a record: `bytes` are those its
header claims, `access` is what it reports. -/
structure PerfEvent where
  bytes : List UInt8
  access : Option MemoryAccess
deriving DecidableEq, Repr

/-- The fields the read uses, with the memory behind the pointers. The
bytes of the ring are those below `DATA_MAPSIZE`. -/
structure PerfInfo where
  prevHead : Nat
  dataBufCopy : Nat → UInt8
  dataMmap : Nat → UInt8
  dataHead : Nat
  dataTail : Nat

/-- The body of a sample: the address and the `data_src` word, whose bits
are those of `perf_event.h`. -/
def sampleAccess (intpaddr src : Nat) : Option MemoryAccess :=
  let miss := !(src &&& (0x08 <<< 5) ≠ 0 && src &&& (0x02 <<< 5) ≠ 0)
  let accessType :=
    if src &&& 0x02 ≠ 0 then MemAccessType.load
    else if src &&& 0x04 ≠ 0 then .store
    else if src &&& 0x08 ≠ 0 then .pfetch
    else if src &&& 0x10 ≠ 0 then .exec
    else .unknown
  if 0 < intpaddr ∧ intpaddr < lastUserAddr then some ⟨intpaddr, accessType, miss⟩ else none

/-- `event->type` -/
def eventType (buf : Nat → UInt8) (offset : Nat) : Nat := littleEndian buf offset 4

/-- `event->size` -/
def eventSize (buf : Nat → UInt8) (offset : Nat) : Nat := littleEndian buf (offset + 6) 2

/-- One turn of the loop; `sample_type` has both of its flags set. -/
def readEvent (buf : Nat → UInt8) (offset : Nat) : PerfEvent where
  bytes := (List.range (eventSize buf offset)).map fun i => buf (offset + i)
  access :=
    if eventType buf offset = perfRecordSample then
      sampleAccess (littleEndian buf (offset + 8) 8) (littleEndian buf (offset + 16) 8)
    else none

/-- `while(offset < size)`. Every turn goes on by the size in the header;
there is no result when it does not get to the end in `fuel` turns, as
when a header says 0. -/
def readLoop (buf : Nat → UInt8) (size : Nat) : Nat → Nat → Option (List PerfEvent)
  | 0, offset => if offset < size then none else some []
  | fuel + 1, offset =>
      if offset < size then
        (readLoop buf size fuel (wrap 64 (offset + eventSize buf offset))).map
          (readEvent buf offset :: ·)
      else some []

structure ReadResult where
  returned : Nat
  warned : Bool
  events : List PerfEvent
deriving DecidableEq, Repr

namespace PerfInfo

/-- A turn takes at least one byte when it takes any, so `size` turns are
enough. -/
def perfMmapRead (perfInfo : PerfInfo) : Option (PerfInfo × ReadResult) :=
  let head := perfInfo.dataHead
  let size := wsub 64 head perfInfo.prevHead
  let prevHead := if head < perfInfo.prevHead then 0 else perfInfo.prevHead
  let warned := decide (((dataMapsize - pagesize : Nat) : Int) < swrap 64 size)
  let prevHeadWrapped := prevHead % dataMapsize
  if size > dataMapsize - prevHeadWrapped then
    let copyAmt := dataMapsize - prevHeadWrapped
    let dataBufCopy := memcpy
      (memcpy perfInfo.dataBufCopy 0 perfInfo.dataMmap prevHeadWrapped copyAmt)
      copyAmt perfInfo.dataMmap 0 (size - copyAmt)
    (readLoop dataBufCopy size size 0).map fun events =>
      ({ perfInfo with prevHead, dataBufCopy, dataTail := head }, ⟨head, warned, events⟩)
  else
    (readLoop (fun i => perfInfo.dataMmap (prevHeadWrapped + i)) size size 0).map fun events =>
      ({ perfInfo with prevHead, dataTail := head }, ⟨head, warned, events⟩)

/-- `perfInfo.prev_head = perf_mmap_read()`, as `sampleHandler` and
`stopSampling` do. -/
def readAndKeep (perfInfo : PerfInfo) : Option (PerfInfo × ReadResult) :=
  perfInfo.perfMmapRead.map fun (perfInfo, result) =>
    ({ perfInfo with prevHead := result.returned }, result)

end PerfInfo

/-! ## Records and the kernel -/

/-- A record as the kernel writes it: a header, whose size is the record's. -/
structure PerfRecord where
  bytes : List UInt8
  header : 8 ≤ bytes.length
  sized : eventSize (bytes.getD · 0) 0 = bytes.length

namespace PerfRecord

/-- What the record reports, by its own bytes. -/
def access (r : PerfRecord) : Option MemoryAccess := (readEvent (r.bytes.getD · 0) 0).access

/-- A sample has its address and its `data_src`, as `sample_type` asks. -/
def Whole (r : PerfRecord) : Prop :=
  eventType (r.bytes.getD · 0) 0 = perfRecordSample → 24 ≤ r.bytes.length

end PerfRecord

/-- The kernel puts a record behind `data_head`. -/
def PerfInfo.kernelWrite (perfInfo : PerfInfo) (r : PerfRecord) : PerfInfo :=
  { perfInfo with
    dataMmap := put dataMapsize perfInfo.dataMmap perfInfo.dataHead r.bytes
    dataHead := wrap 64 (perfInfo.dataHead + r.bytes.length) }

/-- What a call saw as the head, what it left as the tail, its result. -/
structure PerfCall where
  head : Nat
  tail : Nat
  result : ReadResult

/-- The records come in batches, and after each batch there is a read. -/
def PerfInfo.readAll : PerfInfo → List (List PerfRecord) → Option (List PerfCall)
  | _, [] => some []
  | perfInfo, batch :: batches =>
      let written := batch.foldl kernelWrite perfInfo
      written.readAndKeep.bind fun (after, result) =>
        (after.readAll batches).map (⟨written.dataHead, after.dataTail, result⟩ :: ·)

/-- The turn shows the record byte for byte, and reports what it reports. -/
structure Decodes (r : PerfRecord) (e : PerfEvent) : Prop where
  bytes : e.bytes = r.bytes
  access : r.Whole → e.access = r.access

/-! ## Walking over records -/

/-- The bytes of some records, one after another. -/
def bytesOf (rs : List PerfRecord) : List UInt8 := rs.flatMap PerfRecord.bytes

theorem bytesOf_cons (r : PerfRecord) (rs : List PerfRecord) :
    bytesOf (r :: rs) = r.bytes ++ bytesOf rs := rfl

theorem length_le_bytesOf : ∀ rs : List PerfRecord, rs.length ≤ (bytesOf rs).length
  | [] => Nat.le_refl _
  | r :: rs => by
      have ih := length_le_bytesOf rs
      have hheader := r.header
      rw [bytesOf_cons, List.length_append, List.length_cons]
      omega

/-- The buffer shows these bytes from an offset on. -/
def Shows (buf : Nat → UInt8) (offset : Nat) (bytes : List UInt8) : Prop :=
  ∀ i, (hi : i < bytes.length) → buf (offset + i) = bytes[i]

theorem Shows.left {buf : Nat → UInt8} {offset : Nat} {bs cs : List UInt8}
    (h : Shows buf offset (bs ++ cs)) : Shows buf offset bs := fun i hi => by
  rw [h i (by rw [List.length_append]; omega), List.getElem_append_left hi]

theorem Shows.right {buf : Nat → UInt8} {offset : Nat} {bs cs : List UInt8}
    (h : Shows buf offset (bs ++ cs)) : Shows buf (offset + bs.length) cs := fun i hi => by
  rw [Nat.add_assoc, h (bs.length + i) (by rw [List.length_append]; omega),
    List.getElem_append_right (Nat.le_add_right _ _)]
  congr 1
  exact Nat.add_sub_cancel_left _ _

variable {buf : Nat → UInt8} {offset : Nat} {r : PerfRecord}

/-- A number inside the record reads the same in the buffer. -/
theorem Shows.number (h : Shows buf offset r.bytes) (start k : Nat)
    (hin : start + k ≤ r.bytes.length) :
    littleEndian buf (offset + start) k = littleEndian (r.bytes.getD · 0) start k := by
  refine littleEndian_congr fun i hi => ?_
  have hlt : start + i < r.bytes.length := by omega
  rw [Nat.add_assoc, h _ hlt]
  simp [hlt]

theorem Shows.eventSize (h : Shows buf offset r.bytes) :
    eventSize buf offset = r.bytes.length := by
  have hheader := r.header
  rw [← r.sized]
  exact h.number 6 2 (by omega)

/-- A turn at the start of a record decodes it. -/
theorem Shows.decodes (h : Shows buf offset r.bytes) : Decodes r (readEvent buf offset) where
  bytes := by
    refine List.ext_getElem ?_ fun i hi hi' => ?_
    · rw [readEvent, List.length_map, List.length_range, h.eventSize]
    · simp only [readEvent, List.getElem_map, List.getElem_range]
      exact h i hi'
  access hwhole := by
    have hheader := r.header
    have htype : eventType buf offset = eventType (r.bytes.getD · 0) 0 :=
      h.number 0 4 (by omega)
    simp only [readEvent, PerfRecord.access, htype]
    split
    · next hsample =>
        have hbody := hwhole hsample
        rw [h.number 8 8 (by omega), h.number 16 8 hbody]
    · rfl

/-- A buffer that shows some records is walked from record to record. -/
theorem readLoop_records (buf : Nat → UInt8) {size : Nat} (hsize : size < 2 ^ 64) :
    ∀ (rs : List PerfRecord) (offset : Nat) {fuel : Nat}, Shows buf offset (bytesOf rs) →
      size = offset + (bytesOf rs).length → rs.length ≤ fuel →
      ∃ events, readLoop buf size fuel offset = some events ∧ List.Forall₂ Decodes rs events
  | [], offset, fuel, _, hend, _ => by
      have hdone : ¬ offset < size := by
        rw [hend]
        exact Nat.lt_irrefl _
      refine ⟨[], ?_, .nil⟩
      cases fuel <;> rw [readLoop, if_neg hdone]
  | r :: rs, offset, 0, _, _, hfuel => absurd hfuel (Nat.not_succ_le_zero _)
  | r :: rs, offset, fuel + 1, hshows, hend, hfuel => by
      have hheader := r.header
      rw [bytesOf_cons, List.length_append] at hend
      rw [bytesOf_cons] at hshows
      have hnext : wrap 64 (offset + eventSize buf offset) = offset + r.bytes.length := by
        rw [hshows.left.eventSize]
        exact wrap_of_lt (by omega)
      obtain ⟨events, hloop, hdecodes⟩ := readLoop_records buf hsize rs _ hshows.right
        (by omega) (Nat.le_of_succ_le_succ hfuel)
      refine ⟨readEvent buf offset :: events, ?_, .cons hshows.left.decodes hdecodes⟩
      rw [readLoop, if_pos (by omega), hnext, hloop]
      rfl

/-! ## One call -/

/-- The ring holds the bytes from `prev_head` to `data_head`. -/
structure Pending (perfInfo : PerfInfo) (rs : List PerfRecord) : Prop where
  head : perfInfo.dataHead = perfInfo.prevHead + (bytesOf rs).length
  word : perfInfo.dataHead < 2 ^ 64
  room : (bytesOf rs).length ≤ dataMapsize
  ring : ∀ i, (hi : i < (bytesOf rs).length) →
    perfInfo.dataMmap ((perfInfo.prevHead + i) % dataMapsize) = (bytesOf rs)[i]

/-- A read of what is pending decodes it, publishes the head as the tail
and returns it. -/
theorem Pending.perfMmapRead {perfInfo : PerfInfo} {rs : List PerfRecord}
    (h : Pending perfInfo rs) :
    ∃ after result, perfInfo.perfMmapRead = some (after, result) ∧
      result.returned = perfInfo.dataHead ∧ after.dataTail = perfInfo.dataHead ∧
      after.dataHead = perfInfo.dataHead ∧ List.Forall₂ Decodes rs result.events := by
  have hsize : wsub 64 perfInfo.dataHead perfInfo.prevHead = (bytesOf rs).length := by
    rw [wsub_of_le (by rw [h.head]; omega) h.word, h.head, Nat.add_sub_cancel_left]
  have hnot : ¬ perfInfo.dataHead < perfInfo.prevHead := by
    rw [h.head]
    omega
  have hword : (bytesOf rs).length < 2 ^ 64 := by
    have := h.head
    have := h.word
    omega
  have hfuel := length_le_bytesOf rs
  have hwrapped := Nat.mod_lt perfInfo.prevHead (show 0 < dataMapsize by decide)
  simp only [PerfInfo.perfMmapRead, hsize, if_neg hnot]
  split
  · next hover =>
      obtain ⟨events, hloop, hdecodes⟩ := readLoop_records
        (memcpy (memcpy perfInfo.dataBufCopy 0 perfInfo.dataMmap
            (perfInfo.prevHead % dataMapsize) (dataMapsize - perfInfo.prevHead % dataMapsize))
          (dataMapsize - perfInfo.prevHead % dataMapsize) perfInfo.dataMmap 0
          ((bytesOf rs).length - (dataMapsize - perfInfo.prevHead % dataMapsize)))
        hword rs 0 (fun i hi => by rw [Nat.zero_add, memcpy_two h.room hi hover, h.ring i hi])
        (Nat.zero_add _).symm hfuel
      rw [hloop]
      exact ⟨_, _, rfl, rfl, rfl, rfl, hdecodes⟩
  · next hin =>
      obtain ⟨events, hloop, hdecodes⟩ := readLoop_records
        (fun i => perfInfo.dataMmap (perfInfo.prevHead % dataMapsize + i)) hword rs 0
        (fun i hi => by
          have hplace : (perfInfo.prevHead + i) % dataMapsize
              = perfInfo.prevHead % dataMapsize + i := by
            rw [place_add (Nat.lt_of_lt_of_le hi h.room), if_pos (by omega)]
          rw [Nat.zero_add, ← h.ring i hi, hplace])
        (Nat.zero_add _).symm hfuel
      rw [hloop]
      exact ⟨_, _, rfl, rfl, rfl, rfl, hdecodes⟩

/-! ## Successive calls -/

/-- What the kernel leaves after writing some records. -/
theorem foldl_kernelWrite : ∀ (batch : List PerfRecord) {perfInfo : PerfInfo},
    perfInfo.dataHead + (bytesOf batch).length < 2 ^ 64 →
    batch.foldl PerfInfo.kernelWrite perfInfo =
      { perfInfo with
        dataMmap := put dataMapsize perfInfo.dataMmap perfInfo.dataHead (bytesOf batch)
        dataHead := perfInfo.dataHead + (bytesOf batch).length }
  | [], _, _ => rfl
  | r :: batch, perfInfo, h => by
      rw [bytesOf_cons, List.length_append] at h
      have hhead : wrap 64 (perfInfo.dataHead + r.bytes.length) =
          perfInfo.dataHead + r.bytes.length := wrap_of_lt (by omega)
      have hnext : (perfInfo.kernelWrite r).dataHead + (bytesOf batch).length < 2 ^ 64 := by
        simp only [PerfInfo.kernelWrite, hhead]
        omega
      rw [List.foldl_cons, foldl_kernelWrite batch hnext]
      simp only [PerfInfo.kernelWrite, hhead, bytesOf_cons, put_append, List.length_append,
        Nat.add_assoc]

/-- Where each batch ends in the stream. -/
def boundaries : Nat → List (List PerfRecord) → List Nat
  | _, [] => []
  | head, batch :: batches =>
      (head + (bytesOf batch).length) :: boundaries (head + (bytesOf batch).length) batches

/-- With nothing unread, a batch that fits in the ring is pending after
the kernel has written it. -/
theorem Pending.of_write {perfInfo : PerfInfo} {batch : List PerfRecord}
    (hread : perfInfo.dataHead = perfInfo.prevHead) (hroom : (bytesOf batch).length ≤ dataMapsize)
    (hword : perfInfo.prevHead + (bytesOf batch).length < 2 ^ 64) :
    Pending (batch.foldl PerfInfo.kernelWrite perfInfo) batch := by
  rw [foldl_kernelWrite batch (by rw [hread]; exact hword), hread]
  exact ⟨rfl, hword, hroom, fun i hi => put_get hroom hi⟩

/-- Whatever the records are and wherever the ring starts, the calls
together decode every record once and in order. -/
theorem perf_ring_lossless : ∀ (batches : List (List PerfRecord)) (perfInfo : PerfInfo),
    perfInfo.dataHead = perfInfo.prevHead →
    (∀ batch ∈ batches, (bytesOf batch).length ≤ dataMapsize) →
    perfInfo.prevHead + (bytesOf batches.flatten).length < 2 ^ 64 →
    ∃ calls, perfInfo.readAll batches = some calls ∧
      List.Forall₂ Decodes batches.flatten (calls.flatMap fun c => c.result.events) ∧
      calls.map PerfCall.head = boundaries perfInfo.prevHead batches ∧
      ∀ c ∈ calls, c.result.returned = c.head ∧ c.tail = c.head
  | [], _, _, _, _ => ⟨[], rfl, .nil, rfl, fun _ hc => by cases hc⟩
  | batch :: batches, perfInfo, hread, hroom, hword => by
      have hsplit : bytesOf (batch :: batches).flatten
          = bytesOf batch ++ bytesOf batches.flatten := by
        rw [List.flatten_cons, bytesOf, List.flatMap_append]
        rfl
      rw [hsplit, List.length_append] at hword
      have hpending := Pending.of_write hread (hroom batch (List.mem_cons_self ..)) (by omega)
      obtain ⟨after, result, hcall, hreturned, htail, hhead, hdecodes⟩ := hpending.perfMmapRead
      have hboundary : (batch.foldl PerfInfo.kernelWrite perfInfo).dataHead =
          perfInfo.prevHead + (bytesOf batch).length := by
        rw [foldl_kernelWrite batch (by omega), hread]
      -- the next call starts where this one stopped
      obtain ⟨calls, hcalls, hrest, hheads, hpublished⟩ := perf_ring_lossless batches
        { after with prevHead := result.returned } (hhead.trans hreturned.symm)
        (fun b hb => hroom b (List.mem_cons_of_mem _ hb))
        (by simp only [hreturned, hboundary]; omega)
      refine ⟨⟨(batch.foldl PerfInfo.kernelWrite perfInfo).dataHead, after.dataTail, result⟩
        :: calls, ?_, ?_, ?_, ?_⟩
      · simp only [PerfInfo.readAll, PerfInfo.readAndKeep, hcall, Option.map_some, Option.bind_some,
          hcalls]
      · rw [List.flatten_cons, List.flatMap_cons]
        exact List.rel_append hdecodes hrest
      · rw [List.map_cons, hheads, boundaries, hreturned, hboundary]
      · intro c hc
        rcases List.mem_cons.mp hc with rfl | hc
        · exact ⟨hreturned, htail⟩
        · exact hpublished c hc

/-- A load of address 4096 that hit in the first level. -/
def loadRecord : PerfRecord where
  bytes := [9, 0, 0, 0, 0, 0, 24, 0, 0, 16, 0, 0, 0, 0, 0, 0, 0x42, 0x01, 0, 0, 0, 0, 0, 0]
  header := by decide
  sized := by decide

/-- A record of another type, a header alone. -/
def bareRecord : PerfRecord where
  bytes := [2, 0, 0, 0, 0, 0, 8, 0]
  header := by decide
  sized := by decide

/-- Four bytes before the end of the ring: the first header straddles it. -/
theorem perf_ring_lossless_straddling :
    ∃ calls, PerfInfo.readAll ⟨524284, fun _ => 0, fun _ => 0, 524284, 0⟩
        [[loadRecord], [bareRecord, loadRecord]] = some calls ∧
      List.Forall₂ Decodes [loadRecord, bareRecord, loadRecord]
        (calls.flatMap fun c => c.result.events) ∧
      calls.map PerfCall.head = boundaries 524284 [[loadRecord], [bareRecord, loadRecord]] ∧
      ∀ c ∈ calls, c.result.returned = c.head ∧ c.tail = c.head :=
  perf_ring_lossless [[loadRecord], [bareRecord, loadRecord]] _ rfl (by decide) (by decide)

end MemPerf
