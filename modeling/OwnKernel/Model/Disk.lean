import OwnKernel.Model.Store
import Mathlib.Tactic.Linarith

/-!
# The disk and its streams (`disk/disk.c`, `disk/streamer.c`)

`disk_read_sector` fills a 512-byte buffer with the sector at an `lba`,
an `int`. A stream is a position on the disk, counted in bytes, that
reads move along.
-/

namespace OwnKernel

/-- What the disk holds: byte `i < 512` of each sector, by its `lba`. -/
abbrev Sectors := ℤ → ℕ → Byte

/-- `struct disk_stream`. -/
structure DiskStream where
  position : ℤ
  deriving DecidableEq

/-- `sector`, in `disk_stream_read`. -/
def DiskStream.sector (stream : DiskStream) : ℤ := stream.position.tdiv sectorSize

/-- `offset`, in `disk_stream_read`. -/
def DiskStream.offset (stream : DiskStream) : ℤ := stream.position.tmod sectorSize

/-- `disk_stream_seek`. -/
def diskStreamSeek (stream : DiskStream) (pos : ℤ) : DiskStream :=
  { stream with position := pos }

/-- The characters `buffer[offset + i]` for `i < count`, of the buffer a
sector was read into. An index outside the buffer is a memory error. -/
def readBuffer (buffer : ℕ → Byte) (offset count : ℤ) : Except Fault (List Byte) :=
  if count ≤ 0 then .ok []
  else if offset < 0 ∨ (sectorSize : ℤ) < offset + count then .error .outOfBounds
  else .ok ((List.range count.toNat).map fun i => buffer (offset.toNat + i))

/-- `disk_stream_read`, with the characters it delivers. -/
def diskStreamRead (image : Sectors) (stream : DiskStream) (total : ℤ) :
    Except Fault (List Byte × DiskStream) :=
  let sector := stream.position.tdiv sectorSize
  let offset := stream.position.tmod sectorSize
  if (sectorSize : ℤ) < offset + total then do
    let totalToRead := total - (offset + total - sectorSize)
    let bytes ← readBuffer (image sector) offset totalToRead
    let r ← diskStreamRead image
      { stream with position := int32 (stream.position + totalToRead) } (total - totalToRead)
    pure (bytes ++ r.1, r.2)
  else do
    let bytes ← readBuffer (image sector) offset total
    pure (bytes, { stream with position := int32 (stream.position + total) })
termination_by total.toNat
decreasing_by
  have hlt : stream.position.tmod 512 < 512 := Int.tmod_lt_of_pos _ (by decide)
  have hover : (512 : ℤ) < stream.position.tmod 512 + total := by assumption
  change (total - (total - (stream.position.tmod 512 + total - 512))).toNat < total.toNat
  omega

/-- `disk_stream_read`, with the sectors it has `disk_read_block` read. -/
def diskStreamReadBlocks (image : Sectors) (stream : DiskStream) (total : ℤ) :
    Except Fault ((List Byte × DiskStream) × List ℤ) :=
  let sector := stream.position.tdiv sectorSize
  let offset := stream.position.tmod sectorSize
  if (sectorSize : ℤ) < offset + total then do
    let totalToRead := total - (offset + total - sectorSize)
    let bytes ← readBuffer (image sector) offset totalToRead
    let r ← diskStreamReadBlocks image
      { stream with position := int32 (stream.position + totalToRead) } (total - totalToRead)
    pure ((bytes ++ r.1.1, r.1.2), sector :: r.2)
  else do
    let bytes ← readBuffer (image sector) offset total
    pure ((bytes, { stream with position := int32 (stream.position + total) }), [sector])
termination_by total.toNat
decreasing_by
  have hlt : stream.position.tmod 512 < 512 := Int.tmod_lt_of_pos _ (by decide)
  have hover : (512 : ℤ) < stream.position.tmod 512 + total := by assumption
  change (total - (total - (stream.position.tmod 512 + total - 512))).toNat < total.toNat
  omega

end OwnKernel
