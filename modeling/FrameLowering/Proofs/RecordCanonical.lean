import FrameLowering.Proofs.RecordFile
import Mathlib.Data.List.Induction

/-!
# One file for given records

Every reader of the record format accepts only what the matching writer puts down: whatever a
reader takes off the front is the written form of the value that it gives back. The statements
follow the nesting of the format, from integers of fixed width to the file, and go the other way
than those on files read back. The main statement is that a file that is accepted is, byte for
byte, the one written for its records (`decodeFile_canonical`).
-/

namespace FrameLowering

namespace BigEndian

/-- Bytes have a value that fits in as many bytes, and are its written form. -/
theorem encode_decode (bs : List UInt8) :
    decode bs < 256 ^ bs.length ∧ encode bs.length (decode bs) = bs := by
  -- the last byte is the lowest digit, so the induction takes bytes off the end
  induction bs using List.reverseRecOn with
  | nil => exact ⟨by decide, rfl⟩
  | append_singleton bs b ih =>
    obtain ⟨hlt, hencode⟩ := ih
    have hb : b.toNat < 256 := b.toNat_lt
    have hquot : (decode bs * 256 + b.toNat) / 256 = decode bs := by omega
    have hlow : UInt8.ofNat (decode bs * 256 + b.toNat) = b := by
      apply UInt8.toNat_inj.1
      rw [UInt8.toNat_ofNat']
      omega
    rw [List.length_append, List.length_singleton, decode_append_singleton]
    constructor
    · rw [Nat.pow_succ]
      omega
    · rw [encode, hquot, hencode, hlow]

theorem take?_exact {w : Nat} {bs front rest : List UInt8} (h : take? w bs = some (front, rest)) :
    bs = front ++ rest ∧ front.length = w := by
  rw [take?] at h
  split at h
  · next hlen =>
    obtain ⟨rfl, rfl⟩ := Prod.mk.inj (Option.some.inj h)
    exact ⟨(List.take_append_drop w bs).symm, hlen⟩
  · cases h

theorem read?_exact {w n : Nat} {bs rest : List UInt8} (h : read? w bs = some (n, rest)) :
    bs = encode w n ++ rest ∧ n < 256 ^ w := by
  rw [read?] at h
  split at h
  · next front rest' htake =>
    obtain ⟨rfl, rfl⟩ := Prod.mk.inj (Option.some.inj h)
    obtain ⟨rfl, rfl⟩ := take?_exact htake
    obtain ⟨hlt, hencode⟩ := encode_decode front
    exact ⟨by rw [hencode], hlt⟩
  · cases h

theorem readSized?_exact {w : Nat} {bs front rest : List UInt8}
    (h : readSized? w bs = some (front, rest)) :
    bs = encodeSized w front ++ rest ∧ front.length < 256 ^ w := by
  rw [readSized?] at h
  split at h
  · next n rest' hread =>
    obtain ⟨rfl, hlt⟩ := read?_exact hread
    obtain ⟨rfl, rfl⟩ := take?_exact h
    exact ⟨by rw [encodeSized, List.append_assoc], hlt⟩
  · cases h

end BigEndian

namespace Record

open BigEndian

/-! ## Fields of a record -/

theorem readExtent?_exact {bs rest : List UInt8} {e : Extent}
    (h : readExtent? bs = some (e, rest)) : bs = encodeExtent e ++ rest := by
  simp only [readExtent?, Option.bind_eq_bind, Option.bind_eq_some_iff, Prod.exists] at h
  obtain ⟨size, bs₁, hsize, offset, bs₂, hoffset, heq⟩ := h
  obtain ⟨rfl, rfl⟩ := Prod.mk.inj (Option.some.inj heq)
  obtain ⟨rfl, hs⟩ := read?_exact hsize
  obtain ⟨rfl, ho⟩ := read?_exact hoffset
  -- a word of four bytes is not changed by keeping its low 32 bits
  rw [encodeExtent, UInt32.toNat_ofNat_of_lt' hs, UInt32.toNat_ofNat_of_lt' ho, List.append_assoc]

theorem readExtents?_exact {bs rest : List UInt8} {a b c : Extent}
    (h : readExtents? bs = some ((a, b, c), rest)) :
    bs = encodeExtent a ++ (encodeExtent b ++ (encodeExtent c ++ rest)) := by
  simp only [readExtents?, Option.bind_eq_bind, Option.bind_eq_some_iff, Prod.exists] at h
  obtain ⟨a', bs₁, ha, b', bs₂, hb, c', bs₃, hc, heq⟩ := h
  obtain ⟨habc, rfl⟩ := Prod.mk.inj (Option.some.inj heq)
  obtain ⟨rfl, hbc⟩ := Prod.mk.inj habc
  obtain ⟨rfl, rfl⟩ := Prod.mk.inj hbc
  rw [readExtent?_exact ha, readExtent?_exact hb, readExtent?_exact hc]

/-- An offset is read as an unsigned word and kept as a signed one; its bytes are the same. -/
theorem readSaved?_exact {bs rest : List UInt8} {s : SavedReg}
    (h : readSaved? bs = some (s, rest)) : bs = encodeSaved s ++ rest := by
  simp only [readSaved?, Option.bind_eq_bind, Option.bind_eq_some_iff, Prod.exists] at h
  obtain ⟨dwarf, bs₁, hdwarf, offset, bs₂, hoffset, heq⟩ := h
  obtain ⟨rfl, rfl⟩ := Prod.mk.inj (Option.some.inj heq)
  obtain ⟨rfl, hd⟩ := read?_exact hdwarf
  obtain ⟨rfl, ho⟩ := read?_exact hoffset
  rw [encodeSaved, UInt16.toNat_ofNat_of_lt' hd, UInt32.toUInt32_toInt32,
    UInt32.toNat_ofNat_of_lt' ho, List.append_assoc]

theorem readSavedAll_exact {n index : Nat} {bs rest : List UInt8} {ss : List SavedReg}
    (h : readSavedAll n index bs = .ok (ss, rest)) :
    bs = ss.flatMap encodeSaved ++ rest ∧ ss.length = n := by
  induction n generalizing index bs ss with
  | zero =>
    obtain ⟨rfl, rfl⟩ := Prod.mk.inj (Except.ok.inj h)
    exact ⟨rfl, rfl⟩
  | succ n ih =>
    rw [readSavedAll] at h
    split at h
    · cases h
    · next s bs₁ hs =>
      split at h
      · cases h
      · next ss' bs₂ hrest =>
        obtain ⟨rfl, rfl⟩ := Prod.mk.inj (Except.ok.inj h)
        obtain ⟨rfl, rfl⟩ := ih hrest
        rw [readSaved?_exact hs]
        exact ⟨by rw [List.flatMap_cons, List.append_assoc], rfl⟩

theorem readHead?_exact {bs rest : List UInt8} {h : Head} (hread : readHead? bs = some (h, rest)) :
    bs = encodeSized 1 h.name ++ (encode 4 h.stackSize ++ (encode 4 h.varArgsSaveSize ++
        (encode 1 h.flags ++ (encode 2 h.frameReg ++ rest)))) ∧
      h.name.length < 256 ∧ h.stackSize < 2 ^ 32 ∧ h.varArgsSaveSize < 2 ^ 32 ∧
      h.flags < 2 ^ 8 ∧ h.frameReg < 2 ^ 16 := by
  simp only [readHead?, Option.bind_eq_bind, Option.bind_eq_some_iff, Prod.exists] at hread
  obtain ⟨name, bs₁, hname, stack, bs₂, hstack, args, bs₃, hargs, flags, bs₄, hflags, reg, bs₅,
    hreg, heq⟩ := hread
  obtain ⟨rfl, rfl⟩ := Prod.mk.inj (Option.some.inj heq)
  obtain ⟨rfl, hn⟩ := readSized?_exact hname
  obtain ⟨rfl, hs⟩ := read?_exact hstack
  obtain ⟨rfl, hv⟩ := read?_exact hargs
  obtain ⟨rfl, hf⟩ := read?_exact hflags
  obtain ⟨rfl, hr⟩ := read?_exact hreg
  exact ⟨rfl, hn, hs, hv, hf, hr⟩

/-- The bytes of a record that is accepted are those written for it, and it can be written. -/
theorem decodeBody_exact {bs : List UInt8} {r : Record} (h : decodeBody bs = .ok r) :
    bs = r.encodeBody ∧ r.Writable := by
  rw [decodeBody] at h
  split at h
  · cases h
  next head bs₁ hhead =>
  simp only at h
  split at h
  · cases h
  next hname =>
  split at h
  · cases h
  next hflags =>
  split at h
  · cases h
  next gpr1 gpr2 dpr bs₂ hextents =>
  split at h
  · cases h
  next n bs₃ hcount =>
  split at h
  · cases h
  next saved bs₄ hsaved =>
  split at h
  · cases h
  next hend =>
  obtain rfl := Except.ok.inj h
  obtain ⟨rfl, hn, hs, hv, hf, hr⟩ := readHead?_exact hhead
  obtain rfl := readExtents?_exact hextents
  obtain ⟨rfl, hlt⟩ := read?_exact hcount
  obtain ⟨rfl, rfl⟩ := readSavedAll_exact hsaved
  obtain rfl := not_not.1 hend
  refine ⟨?_, hname, Nat.le_of_lt_succ hn, not_not.1 hflags, Nat.le_of_lt_succ hlt⟩
  -- each field that was read is small enough to be kept as it is
  simp only [encodeBody, UInt32.toNat_ofNat_of_lt' hs, UInt32.toNat_ofNat_of_lt' hv,
    UInt8.toNat_ofNat_of_lt' hf, UInt16.toNat_ofNat_of_lt' hr, List.append_assoc, List.append_nil]

/-! ## Files -/

theorem decodeAll_exact {n index : Nat} {bs rest : List UInt8} {rs : List Record}
    (h : decodeAll n index bs = .ok (rs, rest)) :
    bs = (rs.flatMap fun r => encodeSized 3 r.encodeBody) ++ rest ∧ rs.length = n ∧
      ∀ r ∈ rs, r.Writable := by
  induction n generalizing index bs rs with
  | zero =>
    obtain ⟨rfl, rfl⟩ := Prod.mk.inj (Except.ok.inj h)
    exact ⟨rfl, rfl, fun r hr => absurd hr List.not_mem_nil⟩
  | succ n ih =>
    rw [decodeAll] at h
    split at h
    · cases h
    next raw bs₁ hraw =>
    split at h
    · cases h
    next r hr =>
    split at h
    · cases h
    next rs' bs₂ hrest =>
    obtain ⟨rfl, rfl⟩ := Prod.mk.inj (Except.ok.inj h)
    obtain ⟨rfl, rfl, hwritable⟩ := ih hrest
    obtain ⟨rfl, hfirst⟩ := decodeBody_exact hr
    obtain ⟨rfl, -⟩ := readSized?_exact hraw
    refine ⟨?_, rfl, List.forall_mem_cons.2 ⟨hfirst, hwritable⟩⟩
    rw [List.flatMap_cons, List.append_assoc]

theorem decodeRecords_exact {count : Nat} {bs : List UInt8} {rs : List Record}
    (h : decodeRecords count bs = .ok rs) :
    bs = (rs.flatMap fun r => encodeSized 3 r.encodeBody) ∧ rs.length = count ∧
      ∀ r ∈ rs, r.Writable := by
  rw [decodeRecords] at h
  split at h
  · cases h
  split at h
  · cases h
  next rs' rest hall =>
  split at h
  · cases h
  next hend =>
  obtain rfl := Except.ok.inj h
  obtain rfl := not_not.1 hend
  have hexact := decodeAll_exact hall
  rwa [List.append_nil] at hexact

theorem readHeader?_exact {bs rest : List UInt8} {m v count : Nat}
    (h : readHeader? bs = some ((m, v, count), rest)) :
    bs = encode 4 m ++ (encode 1 v ++ (encode 4 count ++ rest)) := by
  simp only [readHeader?, Option.bind_eq_bind, Option.bind_eq_some_iff, Prod.exists] at h
  obtain ⟨m', bs₁, hm, v', bs₂, hv, count', bs₃, hcount, heq⟩ := h
  obtain ⟨hfields, rfl⟩ := Prod.mk.inj (Option.some.inj heq)
  obtain ⟨rfl, hpair⟩ := Prod.mk.inj hfields
  obtain ⟨rfl, rfl⟩ := Prod.mk.inj hpair
  rw [(read?_exact hm).1, (read?_exact hv).1, (read?_exact hcount).1]

/-- A file that is accepted is a header, the records it is read as and the right checksum. -/
theorem decodeFile_exact {c : Checksum} {data : List UInt8} {rs : List Record}
    (h : decodeFile c data = .ok rs) :
    (∀ r ∈ rs, r.Writable) ∧
      ∃ body, body = encodeHeader rs.length ++ (rs.flatMap fun r => encodeSized 3 r.encodeBody) ∧
        data = body ++ c.sum body := by
  rw [decodeFile] at h
  split at h
  · cases h
  split at h
  · cases h
  next hsum =>
  split at h
  · cases h
  next m v count bs hheader =>
  split at h
  · cases h
  next hm =>
  split at h
  · cases h
  next hv =>
  obtain rfl := not_not.1 hm
  obtain rfl := not_not.1 hv
  obtain ⟨rfl, rfl, hwritable⟩ := decodeRecords_exact h
  refine ⟨hwritable, data.take (data.length - checksumSize), ?_, ?_⟩
  · rw [encodeHeader, List.append_assoc, List.append_assoc]
    exact readHeader?_exact hheader
  · -- what stands after the body is its checksum
    rw [not_not.1 hsum]
    exact (List.take_append_drop _ data).symm

/-- A file that is accepted holds records that can be written, is byte for byte the file
written for them, and is the only one that is read as them. -/
theorem decodeFile_canonical (c : Checksum) (data : List UInt8) (rs : List Record)
    (h : decodeFile c data = .ok rs) :
    (∀ r ∈ rs, r.checkEncodable = .ok ()) ∧ encodeFile c rs = .ok data ∧
      ∀ other, decodeFile c other = .ok rs → other = data := by
  obtain ⟨hwritable, body, hbody, hdata⟩ := decodeFile_exact h
  refine ⟨fun r hr => checkEncodable_of_writable (hwritable r hr), ?_, ?_⟩
  · rw [encodeFile, encodeAll_of_writable hwritable]
    simp only [← hbody, ← hdata]
  · intro other hother
    obtain ⟨-, body', hbody', hother⟩ := decodeFile_exact hother
    rw [hother, hdata, hbody', ← hbody]

/-- A file of two records: one whose saved register is below the stack pointer on entry, with a
name that is no text, and one for a function without a frame. -/
theorem decodeFile_canonical_pair :
    let rs : List Record := [
      ⟨[0xff, 0x00], 0xffffffff, 16, ⟨15⟩, 7, ⟨8, 0⟩, ⟨0, 8⟩, ⟨0, 0⟩, [⟨14, -4⟩, ⟨7, -8⟩]⟩,
      ⟨[0x67], 0, 0, ⟨0⟩, 13, ⟨0, 0⟩, ⟨0, 0⟩, ⟨0, 0⟩, []⟩]
    let body := encodeHeader rs.length ++ rs.flatMap fun r => encodeSized 3 r.encodeBody
    let data := body ++ Checksum.sha256.sum body
    decodeFile .sha256 data = .ok rs ∧
      (∀ r ∈ rs, r.checkEncodable = .ok ()) ∧ encodeFile .sha256 rs = .ok data ∧
      ∀ other, decodeFile .sha256 other = .ok rs → other = data := by
  intro rs body data
  have hrs : ∀ r ∈ rs, r.Writable := by
    intro r hr
    rcases List.mem_cons.1 hr with rfl | hr
    · exact ⟨by decide, by decide, by decide, by decide⟩
    · obtain rfl := List.mem_singleton.1 hr
      exact ⟨by decide, by decide, by decide, by decide⟩
  have hdecode : decodeFile .sha256 data = .ok rs := by
    have hcount : rs.length < 2 ^ 32 := by decide
    exact (decodeFile_append_sum .sha256 hcount _).trans (decodeRecords_flatMap hrs)
  exact ⟨hdecode, decodeFile_canonical .sha256 data rs hdecode⟩

end Record

end FrameLowering
