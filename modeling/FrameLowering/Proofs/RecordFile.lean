import FrameLowering.Record.Codec
import Mathlib.Algebra.Group.Nat.Defs
import Mathlib.Tactic.Common

/-!
# Record files read back

Every reader of the record format takes off the front what the matching writer puts
there and leaves the rest alone. The statements follow the nesting of the format: integers
of fixed width, bytes with their number in front, the fields of a record, counted lists
of saved registers and of records, and the file. The main statement is that a file written
for records is read back as those records (`decodeFile_encodeFile`).
-/

namespace FrameLowering

namespace BigEndian

@[simp] theorem length_encode (w n : Nat) : (encode w n).length = w := by
  induction w generalizing n with
  | zero => rfl
  | succ w ih => simp [encode, ih]

theorem decode_append_singleton (bs : List UInt8) (b : UInt8) :
    decode (bs ++ [b]) = decode bs * 256 + b.toNat := by
  simp [decode, List.foldl_append]

theorem decode_encode {w n : Nat} (h : n < 256 ^ w) : decode (encode w n) = n := by
  induction w generalizing n with
  | zero =>
    have hn : n = 0 := by simpa using h
    subst hn
    rfl
  | succ w ih =>
    have hq : n / 256 < 256 ^ w := by
      rw [Nat.div_lt_iff_lt_mul (by omega), ← Nat.pow_succ]
      exact h
    rw [encode, decode_append_singleton, ih hq]
    have hb : (UInt8.ofNat n).toNat = n % 256 := UInt8.toNat_ofNat'
    rw [hb]
    omega

theorem take?_append (front rest : List UInt8) :
    take? front.length (front ++ rest) = some (front, rest) := by
  simp [take?]

theorem read?_encode {w n : Nat} (h : n < 256 ^ w) (rest : List UInt8) :
    read? w (encode w n ++ rest) = some (n, rest) := by
  have ht := take?_append (encode w n) rest
  rw [length_encode] at ht
  simp only [read?, ht, decode_encode h]

/-- Bytes whose number fits in the bytes before them are read back. -/
theorem readSized?_encodeSized {w : Nat} {bs : List UInt8} (h : bs.length < 256 ^ w)
    (rest : List UInt8) : readSized? w (encodeSized w bs ++ rest) = some (bs, rest) := by
  rw [encodeSized, List.append_assoc]
  simp only [readSized?, read?_encode h]
  exact take?_append bs rest

end BigEndian

namespace Record

open BigEndian

/-- Records that a file can hold: the name has a length in one byte and is not empty, no
unknown flag is set, and the number of saved registers fits in two bytes. -/
structure Writable (r : Record) : Prop where
  name_ne_nil : r.name ≠ []
  length_name_le : r.name.length ≤ maxName
  unknown_flags : r.flags.unknown = 0
  length_saved_le : r.saved.length ≤ maxSaved

/-! ## Fields of a record -/

theorem readExtent?_encodeExtent (e : Extent) (rest : List UInt8) :
    readExtent? (encodeExtent e ++ rest) = some (e, rest) := by
  have hs : e.size.toNat < 256 ^ 4 := e.size.toNat_lt
  have ho : e.offset.toNat < 256 ^ 4 := e.offset.toNat_lt
  simp [readExtent?, encodeExtent, List.append_assoc, read?_encode hs, read?_encode ho]

theorem readExtents?_encodeExtents (a b c : Extent) (rest : List UInt8) :
    readExtents? (encodeExtent a ++ (encodeExtent b ++ (encodeExtent c ++ rest))) =
      some ((a, b, c), rest) := by
  simp [readExtents?, readExtent?_encodeExtent]

/-- A signed offset is stored as an unsigned word, which loses nothing. -/
theorem readSaved?_encodeSaved (s : SavedReg) (rest : List UInt8) :
    readSaved? (encodeSaved s ++ rest) = some (s, rest) := by
  have hd : s.dwarf.toNat < 256 ^ 2 := s.dwarf.toNat_lt
  have ho : s.offset.toUInt32.toNat < 256 ^ 4 := s.offset.toUInt32.toNat_lt
  have hback : (UInt32.ofNat s.offset.toUInt32.toNat).toInt32 = s.offset := by
    rw [UInt32.ofNat_toNat]
    exact Int32.toInt32_toUInt32 s.offset
  simp only [readSaved?, encodeSaved, List.append_assoc, read?_encode hd, read?_encode ho,
    Option.bind_eq_bind, Option.bind_some, hback, UInt16.ofNat_toNat]
  rfl

theorem readSavedAll_flatMap (ss : List SavedReg) (index : Nat) (rest : List UInt8) :
    readSavedAll ss.length index (ss.flatMap encodeSaved ++ rest) = .ok (ss, rest) := by
  induction ss generalizing index with
  | nil => rfl
  | cons s ss ih =>
    rw [List.flatMap_cons, List.append_assoc, List.length_cons]
    simp only [readSavedAll, readSaved?_encodeSaved, ih]

theorem readHead?_encode (r : Record) (h : r.name.length ≤ maxName) (rest : List UInt8) :
    readHead? (encodeSized 1 r.name ++ (encode 4 r.stackSize.toNat ++
        (encode 4 r.varArgsSaveSize.toNat ++ (encode 1 r.flags.bits.toNat ++
          (encode 2 r.frameReg.toNat ++ rest))))) =
      some (⟨r.name, r.stackSize.toNat, r.varArgsSaveSize.toNat, r.flags.bits.toNat,
        r.frameReg.toNat⟩, rest) := by
  have hn : r.name.length < 256 ^ 1 := by
    simp only [maxName] at h
    omega
  have hs : r.stackSize.toNat < 256 ^ 4 := r.stackSize.toNat_lt
  have hv : r.varArgsSaveSize.toNat < 256 ^ 4 := r.varArgsSaveSize.toNat_lt
  have hf : r.flags.bits.toNat < 256 ^ 1 := r.flags.bits.toNat_lt
  have hb : r.frameReg.toNat < 256 ^ 2 := r.frameReg.toNat_lt
  simp [readHead?, readSized?_encodeSized hn, read?_encode hs, read?_encode hv,
    read?_encode hf, read?_encode hb]

theorem decodeBody_encodeBody {r : Record} (h : r.Writable) :
    decodeBody r.encodeBody = .ok r := by
  have hsaved : r.saved.length < 256 ^ 2 := by
    have := h.length_saved_le
    simp only [maxSaved] at this
    omega
  have hall := readSavedAll_flatMap r.saved 0 []
  rw [List.append_nil] at hall
  simp [decodeBody, encodeBody, List.append_assoc, readHead?_encode r h.length_name_le,
    h.name_ne_nil, h.unknown_flags, readExtents?_encodeExtents, read?_encode hsaved, hall]

/-! ## Sizes -/

@[simp] theorem length_encodeExtent (e : Extent) : (encodeExtent e).length = 8 := by
  simp [encodeExtent]

@[simp] theorem length_encodeSaved (s : SavedReg) : (encodeSaved s).length = 6 := by
  simp [encodeSaved]

theorem length_flatMap_encodeSaved (ss : List SavedReg) :
    (ss.flatMap encodeSaved).length = 6 * ss.length := by
  induction ss with
  | nil => rfl
  | cons s ss ih =>
    rw [List.flatMap_cons, List.length_append, ih, length_encodeSaved, List.length_cons]
    omega

theorem length_encodeBody (r : Record) :
    r.encodeBody.length = r.name.length + 6 * r.saved.length + 38 := by
  simp only [encodeBody, encodeSized, List.length_append, length_encode, length_encodeExtent,
    length_flatMap_encodeSaved]
  omega

/-- The longest record has a length that fits in the three bytes before it. -/
theorem length_encodeBody_lt {r : Record} (h : r.Writable) : r.encodeBody.length < 256 ^ 3 := by
  have hn := h.length_name_le
  have hs := h.length_saved_le
  simp only [maxName] at hn
  simp only [maxSaved] at hs
  rw [length_encodeBody]
  omega

theorem length_encodeSized (w : Nat) (bs : List UInt8) :
    (encodeSized w bs).length = w + bs.length := by
  simp [encodeSized]

/-! ## Files -/

theorem checkEncodable_of_writable {r : Record} (h : r.Writable) : r.checkEncodable = .ok () := by
  have hn : ¬ (r.name = [] ∨ maxName < r.name.length) := by
    rintro (hnil | hlong)
    · exact h.name_ne_nil hnil
    · exact absurd h.length_name_le (by omega)
  have hs : ¬ maxSaved < r.saved.length := by
    have := h.length_saved_le
    omega
  rw [checkEncodable, if_neg hn, if_neg hs]

theorem encodeAll_of_writable {rs : List Record} (h : ∀ r ∈ rs, r.Writable) :
    encodeAll rs = .ok (rs.flatMap fun r => encodeSized 3 r.encodeBody) := by
  induction rs with
  | nil => rfl
  | cons r rs ih =>
    have hr := checkEncodable_of_writable (h r List.mem_cons_self)
    have hrs := ih fun x hx => h x (List.mem_cons_of_mem _ hx)
    simp only [encodeAll, hr, hrs, List.flatMap_cons]

theorem decodeAll_flatMap {rs : List Record} (h : ∀ r ∈ rs, r.Writable) (index : Nat)
    (rest : List UInt8) :
    decodeAll rs.length index ((rs.flatMap fun r => encodeSized 3 r.encodeBody) ++ rest) =
      .ok (rs, rest) := by
  induction rs generalizing index with
  | nil => rfl
  | cons r rs ih =>
    have hr := h r List.mem_cons_self
    have hrs := ih fun x hx => h x (List.mem_cons_of_mem _ hx)
    rw [List.flatMap_cons, List.append_assoc, List.length_cons]
    simp only [decodeAll, readSized?_encodeSized (length_encodeBody_lt hr),
      decodeBody_encodeBody hr, hrs]

/-- The bound on the number of records never refuses a file: a record takes more than the
four bytes that the bound asks for. -/
theorem count_le_length (rs : List Record) :
    rs.length * 4 ≤ (rs.flatMap fun r => encodeSized 3 r.encodeBody).length := by
  induction rs with
  | nil => simp
  | cons r rs ih =>
    rw [List.flatMap_cons, List.length_append, length_encodeSized, length_encodeBody,
      List.length_cons]
    omega

theorem decodeRecords_flatMap {rs : List Record} (h : ∀ r ∈ rs, r.Writable) :
    decodeRecords rs.length (rs.flatMap fun r => encodeSized 3 r.encodeBody) = .ok rs := by
  have hall := decodeAll_flatMap h 0 []
  rw [List.append_nil] at hall
  rw [decodeRecords, if_neg (Nat.not_lt.2 (count_le_length rs)), hall]
  rfl

theorem readHeader?_encodeHeader {count : Nat} (h : count < 2 ^ 32) (rest : List UInt8) :
    readHeader? (encodeHeader count ++ rest) = some ((magic, version, count), rest) := by
  have hm : magic < 256 ^ 4 := by decide
  have hv : version < 256 ^ 1 := by decide
  have hc : count < 256 ^ 4 := h
  simp [readHeader?, encodeHeader, List.append_assoc, read?_encode hm, read?_encode hv,
    read?_encode hc]

theorem length_encodeHeader (count : Nat) : (encodeHeader count).length = headerSize := by
  simp [encodeHeader, headerSize]

/-- A file of records with a right checksum is read as its body. -/
theorem decodeFile_append_sum (c : Checksum) {count : Nat} (hc : count < 2 ^ 32)
    (bs : List UInt8) :
    decodeFile c ((encodeHeader count ++ bs) ++ c.sum (encodeHeader count ++ bs)) =
      decodeRecords count bs := by
  generalize hbody : encodeHeader count ++ bs = body
  have hlen : headerSize ≤ body.length := by
    rw [← hbody, List.length_append, length_encodeHeader]
    omega
  have hsize : (body ++ c.sum body).length - checksumSize = body.length := by
    rw [List.length_append, c.length_sum, checksumSize]
    omega
  have hlong : ¬ (body ++ c.sum body).length < headerSize + checksumSize := by
    rw [List.length_append, c.length_sum, checksumSize]
    omega
  have hheader : readHeader? body = some ((magic, version, count), bs) := by
    rw [← hbody]
    exact readHeader?_encodeHeader hc bs
  simp only [decodeFile, hsize, List.take_left, List.drop_left, if_neg hlong, hheader]
  simp

/-- Records that can be written make a file, and reading the file gives back the records,
in order, whatever checksum it carries. -/
theorem decodeFile_encodeFile (c : Checksum) (rs : List Record) (hcount : rs.length < 2 ^ 32)
    (hrs : ∀ r ∈ rs, r.Writable) :
    ∃ data, encodeFile c rs = .ok data ∧ decodeFile c data = .ok rs := by
  have henc := encodeAll_of_writable hrs
  have hdec := decodeRecords_flatMap hrs
  generalize (rs.flatMap fun r => encodeSized 3 r.encodeBody) = bs at henc hdec
  refine ⟨(encodeHeader rs.length ++ bs) ++ c.sum (encodeHeader rs.length ++ bs), ?_, ?_⟩
  · simp only [encodeFile, henc]
  · rw [decodeFile_append_sum c hcount, hdec]

/-- Two records: a name that is no text, all flags, a register below the entry stack pointer
and the largest fields; and a frame with nothing in it. -/
theorem decodeFile_encodeFile_extremes :
    let rs : List Record := [
      ⟨[0xff, 0x00], 0xffffffff, 0xffffffff, ⟨15⟩, 0xffff, ⟨0xffffffff, 0⟩, ⟨0, 0xffffffff⟩,
        ⟨8, 16⟩, [⟨14, -4⟩, ⟨0xffff, -2147483648⟩]⟩,
      ⟨[0x66], 0, 0, ⟨0⟩, 13, ⟨0, 0⟩, ⟨0, 0⟩, ⟨0, 0⟩, []⟩]
    (rs.length < 2 ^ 32 ∧ ∀ r ∈ rs, r.Writable) ∧
      ∃ data, encodeFile .sha256 rs = .ok data ∧ decodeFile .sha256 data = .ok rs := by
  intro rs
  have hcount : rs.length < 2 ^ 32 := by decide
  have hrs : ∀ r ∈ rs, r.Writable := by
    intro r hr
    rcases List.mem_cons.1 hr with rfl | hr
    · exact ⟨by decide, by decide, by decide, by decide⟩
    · rcases List.mem_singleton.1 hr with rfl
      exact ⟨by decide, by decide, by decide, by decide⟩
  exact ⟨⟨hcount, hrs⟩, decodeFile_encodeFile .sha256 rs hcount hrs⟩

end Record

end FrameLowering
