import FrameLowering.Bytes.Sha256
import FrameLowering.Record.Basic
import FrameLowering.Text.Quoted

/-!
# Files of frame records

A file holds a header, records and a checksum. The header is the magic number, the
version and the number of records; each record comes after its length in three bytes, and
the checksum is that of everything before it. All integers are big-endian. A file that
`Record.decodeFile` accepts is exactly what `Record.encodeFile` writes for its records.
-/

namespace FrameLowering

/-- A checksum of byte strings. -/
structure Checksum where
  sum : List UInt8 → List UInt8
  length_sum : ∀ bs, (sum bs).length = 32

/-- The checksum of record files. -/
def Checksum.sha256 : Checksum :=
  ⟨Sha256.hash, Sha256.length_hash⟩

namespace Record

/-- Number at the start of a file. -/
def magic : Nat := 0x6166726d

/-- Version of the format. -/
def version : Nat := 1

/-- Bytes of the header. -/
def headerSize : Nat := 9

/-- Bytes of the checksum. -/
def checksumSize : Nat := 32

/-- Why records cannot be written. -/
inductive EncodeError where
  | name (name : List UInt8)
  | tooManySaved (name : List UInt8)
deriving DecidableEq, Repr

/-- Wording of the cause. -/
def EncodeError.message : EncodeError → String
  | .name n => "invalid frame record name " ++ Text.quoteBytes n
  | .tooManySaved n =>
    "invalid frame record " ++ Text.Utf8.lossy n ++ ": too many saved registers"

/-- Bytes of an extent. -/
def encodeExtent (e : Extent) : List UInt8 :=
  BigEndian.encode 4 e.size.toNat ++ BigEndian.encode 4 e.offset.toNat

/-- Bytes of a saved register. -/
def encodeSaved (s : SavedReg) : List UInt8 :=
  BigEndian.encode 2 s.dwarf.toNat ++ BigEndian.encode 4 s.offset.toUInt32.toNat

/-- Bytes of a record, without its length. -/
def encodeBody (r : Record) : List UInt8 :=
  BigEndian.encodeSized 1 r.name ++ BigEndian.encode 4 r.stackSize.toNat ++
    BigEndian.encode 4 r.varArgsSaveSize.toNat ++ BigEndian.encode 1 r.flags.bits.toNat ++
    BigEndian.encode 2 r.frameReg.toNat ++ encodeExtent r.gpr1 ++ encodeExtent r.gpr2 ++
    encodeExtent r.dpr ++ BigEndian.encode 2 r.saved.length ++ r.saved.flatMap encodeSaved

/-- Checks that a record can be written. -/
def checkEncodable (r : Record) : Except EncodeError Unit :=
  if r.name = [] ∨ maxName < r.name.length then .error (.name r.name)
  else if maxSaved < r.saved.length then .error (.tooManySaved r.name)
  else .ok ()

/-- Bytes of records, each after its length. -/
def encodeAll : List Record → Except EncodeError (List UInt8)
  | [] => .ok []
  | r :: rest =>
    match r.checkEncodable with
    | .error e => .error e
    | .ok _ =>
      match encodeAll rest with
      | .error e => .error e
      | .ok bs => .ok (BigEndian.encodeSized 3 r.encodeBody ++ bs)

/-- The header of a file. -/
def encodeHeader (count : Nat) : List UInt8 :=
  BigEndian.encode 4 magic ++ BigEndian.encode 1 version ++ BigEndian.encode 4 count

/-- The file with given records. -/
def encodeFile (c : Checksum) (rs : List Record) : Except EncodeError (List UInt8) :=
  match encodeAll rs with
  | .error e => .error e
  | .ok bs =>
    let body := encodeHeader rs.length ++ bs
    .ok (body ++ c.sum body)

/-- What is wrong with the bytes of a record. -/
inductive BodyError where
  | truncated
  | noName
  | flags (name : List UInt8) (flags : FrameFlags)
  | areas (name : List UInt8)
  | savedCount (name : List UInt8)
  | saved (name : List UInt8) (index : Nat)
  | trailing (name : List UInt8) (count : Nat)
deriving DecidableEq, Repr

/-- Wording of the cause. -/
def BodyError.message : BodyError → String
  | .truncated => "truncated"
  | .noName => "missing name"
  | .flags n f => Text.Utf8.lossy n ++ ": unknown flags " ++ f.text
  | .areas n => Text.Utf8.lossy n ++ ": truncated areas"
  | .savedCount n => Text.Utf8.lossy n ++ ": truncated saved registers"
  | .saved n index => Text.Utf8.lossy n ++ ": truncated saved register " ++ toString index
  | .trailing n count => Text.Utf8.lossy n ++ ": " ++ toString count ++ " trailing bytes"

/-- What is wrong with the bytes of a file. -/
inductive DecodeError where
  | tooShort (size : Nat)
  | checksum (computed stored : List UInt8)
  | magic (found : Nat)
  | version (found : Nat)
  | count (count size : Nat)
  | truncated (index : Nat)
  | record (index : Nat) (cause : BodyError)
  | trailing (count : Nat)
deriving DecidableEq, Repr

/-- Bytes as hexadecimal digits. -/
def hexText (bs : List UInt8) : String :=
  String.ofList (bs.flatMap fun b => Text.hexPadded 2 b.toNat)

/-- Wording of the cause. -/
def DecodeError.message : DecodeError → String
  | .tooShort size =>
    "invalid frame records: got " ++ toString size ++ " bytes, want at least " ++
      toString (headerSize + checksumSize)
  | .checksum computed stored =>
    "invalid frame records: checksum mismatch: got " ++ hexText computed ++ ", want " ++
      hexText stored
  | .magic found =>
    "invalid frame records: got magic " ++ Text.hexInt found ++ ", want " ++
      Text.hexInt Record.magic
  | .version found => "unsupported frame record version " ++ toString found
  | .count n size =>
    "invalid frame records: " ++ toString n ++ " records in " ++ toString size ++ " bytes"
  | .truncated index => "invalid frame record " ++ toString index ++ ": truncated"
  | .record index e => "invalid frame record " ++ toString index ++ ": " ++ e.message
  | .trailing n => "invalid frame records: " ++ toString n ++ " trailing bytes"

/-- The first fields of a record. -/
structure Head where
  name : List UInt8
  stackSize : Nat
  varArgsSaveSize : Nat
  flags : Nat
  frameReg : Nat
deriving Repr

/-- Takes the first fields of a record off the front. -/
def readHead? (bs : List UInt8) : Option (Head × List UInt8) := do
  let (name, bs) ← BigEndian.readSized? 1 bs
  let (stackSize, bs) ← BigEndian.read? 4 bs
  let (varArgsSaveSize, bs) ← BigEndian.read? 4 bs
  let (flags, bs) ← BigEndian.read? 1 bs
  let (frameReg, bs) ← BigEndian.read? 2 bs
  return (⟨name, stackSize, varArgsSaveSize, flags, frameReg⟩, bs)

/-- Takes an extent off the front. -/
def readExtent? (bs : List UInt8) : Option (Extent × List UInt8) := do
  let (size, bs) ← BigEndian.read? 4 bs
  let (offset, bs) ← BigEndian.read? 4 bs
  return (⟨UInt32.ofNat size, UInt32.ofNat offset⟩, bs)

/-- Takes the three extents of a record off the front. -/
def readExtents? (bs : List UInt8) : Option ((Extent × Extent × Extent) × List UInt8) := do
  let (gpr1, bs) ← readExtent? bs
  let (gpr2, bs) ← readExtent? bs
  let (dpr, bs) ← readExtent? bs
  return ((gpr1, gpr2, dpr), bs)

/-- Takes a saved register off the front. -/
def readSaved? (bs : List UInt8) : Option (SavedReg × List UInt8) := do
  let (dwarf, bs) ← BigEndian.read? 2 bs
  let (offset, bs) ← BigEndian.read? 4 bs
  return (⟨UInt16.ofNat dwarf, (UInt32.ofNat offset).toInt32⟩, bs)

/-- Takes `n` saved registers off the front; the position of the first that is cut
short otherwise. -/
def readSavedAll : (n index : Nat) → List UInt8 → Except Nat (List SavedReg × List UInt8)
  | 0, _, bs => .ok ([], bs)
  | n + 1, index, bs =>
    match readSaved? bs with
    | none => .error index
    | some (s, bs) =>
      match readSavedAll n (index + 1) bs with
      | .error i => .error i
      | .ok (ss, bs) => .ok (s :: ss, bs)

/-- The record with given bytes. -/
def decodeBody (bs : List UInt8) : Except BodyError Record :=
  match readHead? bs with
  | none => .error .truncated
  | some (h, bs) =>
    let flags : FrameFlags := ⟨UInt8.ofNat h.flags⟩
    if h.name = [] then .error .noName
    else if flags.unknown ≠ 0 then .error (.flags h.name flags)
    else
      match readExtents? bs with
      | none => .error (.areas h.name)
      | some ((gpr1, gpr2, dpr), bs) =>
        match BigEndian.read? 2 bs with
        | none => .error (.savedCount h.name)
        | some (n, bs) =>
          match readSavedAll n 0 bs with
          | .error i => .error (.saved h.name i)
          | .ok (saved, bs) =>
            if bs ≠ [] then .error (.trailing h.name bs.length)
            else
              .ok {
                name := h.name
                stackSize := UInt32.ofNat h.stackSize
                varArgsSaveSize := UInt32.ofNat h.varArgsSaveSize
                flags
                frameReg := UInt16.ofNat h.frameReg
                gpr1, gpr2, dpr, saved }

/-- Takes `n` records off the front, the first at a given position of the file. -/
def decodeAll : (n index : Nat) → List UInt8 → Except DecodeError (List Record × List UInt8)
  | 0, _, bs => .ok ([], bs)
  | n + 1, index, bs =>
    match BigEndian.readSized? 3 bs with
    | none => .error (.truncated index)
    | some (raw, bs) =>
      match decodeBody raw with
      | .error e => .error (.record index e)
      | .ok r =>
        match decodeAll n (index + 1) bs with
        | .error e => .error e
        | .ok (rs, bs) => .ok (r :: rs, bs)

/-- The records after a header with their number. Each takes at least four bytes. -/
def decodeRecords (count : Nat) (bs : List UInt8) : Except DecodeError (List Record) :=
  if bs.length < count * 4 then .error (.count count bs.length)
  else
    match decodeAll count 0 bs with
    | .error e => .error e
    | .ok (rs, bs) => if bs ≠ [] then .error (.trailing bs.length) else .ok rs

/-- Takes the header off the front: magic number, version and number of records. -/
def readHeader? (bs : List UInt8) : Option ((Nat × Nat × Nat) × List UInt8) := do
  let (magic, bs) ← BigEndian.read? 4 bs
  let (version, bs) ← BigEndian.read? 1 bs
  let (count, bs) ← BigEndian.read? 4 bs
  return ((magic, version, count), bs)

/-- The records of a file. -/
def decodeFile (c : Checksum) (data : List UInt8) : Except DecodeError (List Record) :=
  let size := data.length
  let body := data.take (size - checksumSize)
  let stored := data.drop (size - checksumSize)
  if size < headerSize + checksumSize then .error (.tooShort size)
  else if c.sum body ≠ stored then .error (.checksum (c.sum body) stored)
  else
    match readHeader? body with
    | none => .error (.tooShort size)
    | some ((m, v, count), bs) =>
      if m ≠ magic then .error (.magic m)
      else if v ≠ version then .error (.version v)
      else decodeRecords count bs

end Record

end FrameLowering
