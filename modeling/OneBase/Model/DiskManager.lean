import OneBase.Model.Types
import OneBase.ToMathlib.Bytes

/-! # The disk manager

`storage/disk/disk_manager.cpp` over one open `std::fstream`. The stream has one position for reading
and writing and keeps its error state from call to call: a read that meets the end of the file sets
`eofbit` and `failbit`, and while `failbit` is set `seekg`, `read`, `seekp` and `write` do nothing. The
file has no hardware errors, so `badbit` is never set and the calls that test it do not throw.
-/

namespace OneBase

open Bytes

/-- The bytes of one page. -/
abbrev PageBytes := { bytes : List UInt8 // bytes.length = pageSize }

/-- `std::fstream` on an open file. -/
structure FStream where
  file : List UInt8
  pos : ℕ
  failbit : Bool := false
  eofbit : Bool := false
deriving DecidableEq, Repr

namespace FStream

/-- `seekg` clears `eofbit` first. -/
def seekg (io : FStream) (offset : ℕ) : FStream :=
  let io := { io with eofbit := false }
  if io.failbit then io else { io with pos := offset }

/-- `read`, with what it stored (`gcount()` bytes). -/
def read (io : FStream) (count : ℕ) : FStream × List UInt8 :=
  if io.failbit || io.eofbit then ({ io with failbit := true }, [])
  else
    let data := (io.file.drop io.pos).take count
    let ended : Bool := data.length < count
    ({ io with pos := io.pos + data.length, failbit := ended, eofbit := ended }, data)

def seekp (io : FStream) (offset : ℕ) : FStream := if io.failbit then io else { io with pos := offset }

def write (io : FStream) (data : List UInt8) : FStream :=
  if io.failbit || io.eofbit then { io with failbit := true }
  else { io with file := overwrite io.file io.pos data, pos := io.pos + data.length }

end FStream

/-- `DiskManager`. -/
structure DiskManager where
  dbIo : FStream
  nextPageId : ℕ
  numPages : ℕ
deriving DecidableEq, Repr

namespace DiskManager

/-- The constructor, on a file that could be opened or made. -/
def opened (file : List UInt8) : DiskManager :=
  let numPages := file.length / pageSize
  ⟨⟨file, file.length, false, false⟩, numPages, numPages⟩

/-- `ReadPage`, with the buffer it fills: what was read, then zeros. -/
def readPage (disk : DiskManager) (pageId : ℕ) : DiskManager × List UInt8 :=
  let result := (disk.dbIo.seekg (pageId * pageSize)).read pageSize
  ({ disk with dbIo := result.1 }, result.2 ++ List.replicate (pageSize - result.2.length) 0)

/-- `WritePage`. -/
def writePage (disk : DiskManager) (pageId : ℕ) (pageData : PageBytes) : DiskManager :=
  let io := (disk.dbIo.seekp (pageId * pageSize)).write pageData.val
  { disk with dbIo := io, numPages := if disk.numPages ≤ pageId then pageId + 1 else disk.numPages }

/-- `AllocatePage`. -/
def allocatePage (disk : DiskManager) : DiskManager × ℕ :=
  ({ disk with nextPageId := disk.nextPageId + 1 }, disk.nextPageId)

end DiskManager

end OneBase
