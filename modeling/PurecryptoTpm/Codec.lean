import PurecryptoTpm.Types.Structures

/-!
Writing and reading are inverse to each other. A type's *wire values* are those
whose length prefixes hold the lengths. A wire value is read back from its
encoding whatever stands around it, and whatever is read is a wire value whose
encoding is exactly what was consumed. So a value has one encoding, and no
count or length can make a reader return more than the bytes it was given.
-/

namespace PurecryptoTpm

/-- Reading undoes writing and writing undoes reading, anywhere in a buffer. -/
structure InverseLaws {α : Type} (write : α → Bytes) (read : Exec Error Reader α)
    (Wire : α → Prop) : Prop where
  read_write : ∀ a, Wire a → ∀ pre s,
    read (.between pre (write a ++ s)) = (.ok a, .between (pre ++ write a) s)
  write_read : ∀ a pre post r, read (.between pre post) = (.ok a, r) →
    Wire a ∧ ∃ s, post = write a ++ s ∧ r = .between (pre ++ write a) s

/-- The wire values of a type and their encodings. -/
def wireFormat {α : Type} (Wire : α → Prop) (write : α → Bytes) : Format UInt8 α :=
  fun a w => Wire a ∧ w = write a

theorem InverseLaws.of_parses {α : Type} {write : α → Bytes} {read : Exec Error Reader α}
    {Wire : α → Prop} (h : Parses Reader.between Malformed read (wireFormat Wire write)) :
    InverseLaws write read Wire where
  read_write a ha pre s := h.complete ⟨ha, rfl⟩ pre s
  write_read := by
    intro a pre post r hread
    rcases h.cases pre post with ⟨b, _, s, ⟨hb, rfl⟩, hpost, hok⟩ | ⟨e, pre', post', -, -, herr⟩
    · rw [hok] at hread
      simp only [Prod.mk.injEq, Outcome.ok.injEq] at hread
      obtain ⟨rfl, rfl⟩ := hread
      exact ⟨hb, s, hpost, rfl⟩
    · rw [herr] at hread
      simp at hread

/-! ### Wire values -/

namespace Buffer

def Wire (b : Buffer) : Prop := b.bytes.length ≤ 65535

theorem Wire.toBytes_eq {b : Buffer} (h : b.Wire) : toBytes b = tpm2bBytes b.bytes := by
  have hlt : b.bytes.length < 65536 := Nat.lt_succ_of_le h
  rw [toBytes_buffer, marshalTpm2bOk_of_lt hlt, List.nil_append]

end Buffer

namespace PcrSelection

def Wire (s : PcrSelection) : Prop := s.select.length ≤ 255

theorem toBytes_eq (s : PcrSelection) :
    toBytes s = toBeBytes s.hash.raw ++ (toBeBytes (UInt8.ofNat s.select.length) ++ s.select) := by
  show marshal (UInt8.ofNat s.select.length) (marshal s.hash []) ++ s.select = _
  simp [marshal_eq]

end PcrSelection

namespace PcrSelectionList

def Wire (l : PcrSelectionList) : Prop := l.list.length < 4294967296 ∧ ∀ s ∈ l.list, s.Wire

theorem toBytes_eq (l : PcrSelectionList) :
    toBytes l = toBeBytes (UInt32.ofNat l.list.length) ++ (l.list.map toBytes).flatten := by
  show l.list.foldl (fun out s => marshal s out) (marshal (UInt32.ofNat l.list.length) []) = _
  rw [foldl_marshal, marshal_eq, List.nil_append, toBytes_prim]

end PcrSelectionList

/-- The encoding of a list of digests: its length and the digests. -/
def digestListBytes (l : List Buffer) : Bytes :=
  toBeBytes (UInt32.ofNat l.length) ++ (l.map toBytes).flatten

def WireDigests (l : List Buffer) : Prop := l.length ≤ 65535 ∧ ∀ b ∈ l, b.Wire

/-! ### Counted lists -/

/-- Elements that take up `k` bytes or more are no more than the bytes allow. -/
theorem length_flatten_ge {α : Type} (write : α → Bytes) (k : ℕ) (as : List α)
    (h : ∀ a ∈ as, k ≤ (write a).length) :
    k * as.length ≤ (as.map write).flatten.length := by
  induction as with
  | nil => simp
  | cons a as ih =>
      have ha := h a (List.mem_cons_self ..)
      have hrest := ih fun b hb => h b (List.mem_cons_of_mem a hb)
      rw [List.map_cons, List.flatten_cons, List.length_append, List.length_cons, Nat.mul_add]
      omega

/-- A count and as many encodings are the encoding of a list that can be counted. -/
theorem counted_iff {α : Type} (Wire : α → Prop) (write : α → Bytes) (as : List α) (w : Bytes) :
    Format.seq (primFormat UInt32)
        (fun count => Format.vector (wireFormat Wire write) count.toNat) as w ↔
      (as.length < 4294967296 ∧ ∀ a ∈ as, Wire a) ∧
        w = toBeBytes (UInt32.ofNat as.length) ++ (as.map write).flatten := by
  refine ⟨fun h => ?_, fun h => ?_⟩
  · obtain ⟨count, _, _, rfl, hvector, rfl⟩ := h
    obtain ⟨hlen, hall, rfl⟩ := (Format.vector_values _ _ _ _ _).mp hvector
    have hofNat : UInt32.ofNat as.length = count := by rw [hlen, UInt32.ofNat_toNat]
    exact ⟨⟨hlen ▸ count.toNat_lt, hall⟩, by rw [hofNat]⟩
  · obtain ⟨⟨hlt, hall⟩, rfl⟩ := h
    have hcount := UInt32.toNat_ofNat_of_lt' hlt
    exact ⟨UInt32.ofNat as.length, _, _, rfl,
      (Format.vector_values _ _ _ _ _).mpr ⟨hcount.symm, hall, rfl⟩, rfl⟩

/-! ### The readers -/

namespace Reader

variable {α : Type}

/-- A newtype is read as its integer. -/
theorem newtype_parses {ι : Type} [Prim ι] [Marshal α] {p : Exec Error Reader ι} (mk : ι → α)
    (raw : α → ι) (hp : Parses between Malformed p (primFormat ι)) (hmk : ∀ a, mk (raw a) = a)
    (hraw : ∀ v, raw (mk v) = v) (hbytes : ∀ a, toBytes a = toBeBytes (raw a)) :
    Parses between Malformed (p >>= fun v => pure (mk v))
      (wireFormat (fun _ : α => True) toBytes) := by
  refine (hp.wrap mk raw hraw hmk).congr fun a w => ?_
  rw [wireFormat, hbytes, true_and]
  exact Iff.rfl

theorem alg_parses : Parses between Malformed (unmarshal : Exec Error Reader Alg)
    (wireFormat (fun _ => True) toBytes) :=
  newtype_parses Alg.mk Alg.raw u16_parses (fun _ => rfl) (fun _ => rfl) toBytes_alg

theorem objectAttributes_parses :
    Parses between Malformed (unmarshal : Exec Error Reader ObjectAttributes)
      (wireFormat (fun _ => True) toBytes) :=
  newtype_parses ObjectAttributes.mk ObjectAttributes.raw u32_parses (fun _ => rfl)
    (fun _ => rfl) toBytes_objectAttributes

theorem buffer_parses : Parses between Malformed (unmarshal : Exec Error Reader Buffer)
    (wireFormat Buffer.Wire toBytes) := by
  refine (tpm2b_parses.wrap Buffer.mk Buffer.bytes (fun _ => rfl) fun _ => rfl).congr fun b w => ?_
  constructor
  · rintro ⟨hlt, rfl⟩
    have hwire : b.Wire := Nat.le_of_lt_succ hlt
    exact ⟨hwire, hwire.toBytes_eq.symm⟩
  · rintro ⟨hwire, rfl⟩
    exact ⟨Nat.lt_succ_of_le hwire, hwire.toBytes_eq⟩

theorem pcrSelection_parses :
    Parses between Malformed (unmarshal : Exec Error Reader PcrSelection)
      (wireFormat PcrSelection.Wire toBytes) := by
  refine (alg_parses.bind fun hash => u8_parses.bind fun size => (take_parses size.toNat).bind
    fun select => Parses.pure (PcrSelection.mk hash select)).congr fun s w => ?_
  rw [wireFormat, PcrSelection.toBytes_eq]
  constructor
  · rintro ⟨hash, _, _, ⟨-, rfl⟩, ⟨size, _, _, rfl, ⟨_, select, _, ⟨rfl, hlen⟩, ⟨rfl, rfl⟩, rfl⟩,
      rfl⟩, rfl⟩
    have hsize := size.toNat_lt
    have hofNat : UInt8.ofNat select.length = size := by rw [hlen, UInt8.ofNat_toNat]
    refine ⟨?_, by simp [hofNat]⟩
    show select.length ≤ 255
    omega
  · rintro ⟨hwire, rfl⟩
    have hlt : s.select.length < 256 := Nat.lt_succ_of_le hwire
    refine ⟨s.hash, _, _, ⟨trivial, rfl⟩, ⟨UInt8.ofNat s.select.length, _, _, rfl,
      ⟨s.select, s.select, [], ⟨rfl, ?_⟩, ⟨rfl, rfl⟩, (List.append_nil _).symm⟩, rfl⟩, rfl⟩
    exact (UInt8.toNat_ofNat_of_lt' hlt).symm

theorem pcrSelectionList_parses :
    Parses between Malformed (unmarshal : Exec Error Reader PcrSelectionList)
      (wireFormat PcrSelectionList.Wire toBytes) := by
  refine (u32_parses.bind fun count => (pcrSelection_parses.times count.toNat).wrap
    PcrSelectionList.mk PcrSelectionList.list (fun _ => rfl) fun _ => rfl).congr fun l w => ?_
  rw [wireFormat, PcrSelectionList.toBytes_eq]
  exact counted_iff PcrSelection.Wire toBytes l.list w

theorem digest_parses : Parses between Malformed (do let b ← tpm2b; pure (Buffer.mk b))
    (wireFormat Buffer.Wire toBytes) := buffer_parses

theorem readDigestList_parses :
    Parses between Malformed readDigestList (wireFormat WireDigests digestListBytes) := by
  refine (u32_parses.bind fun count => (Parses.throw ⟨_, rfl⟩).ite
    (digest_parses.times count.toNat)).congr fun l w => ?_
  constructor
  · rintro ⟨count, _, _, rfl, hvector, rfl⟩
    by_cases hcount : count.toNat > 0xFFFF
    · rw [if_pos hcount] at hvector
      exact hvector.elim
    · rw [if_neg hcount] at hvector
      obtain ⟨hlen, hall, rfl⟩ := (Format.vector_values _ _ _ _ _).mp hvector
      have hofNat : UInt32.ofNat l.length = count := by rw [hlen, UInt32.ofNat_toNat]
      exact ⟨⟨by omega, hall⟩, by rw [digestListBytes, hofNat]⟩
  · rintro ⟨⟨hle, hall⟩, rfl⟩
    have hcount : (UInt32.ofNat l.length).toNat = l.length :=
      UInt32.toNat_ofNat_of_lt' (show l.length < 4294967296 by omega)
    refine ⟨UInt32.ofNat l.length, _, _, rfl, ?_, rfl⟩
    beta_reduce
    rw [hcount, if_neg (by omega)]
    exact (Format.vector_values _ _ _ _ _).mpr ⟨rfl, hall, rfl⟩

/-- A creation ticket: a tag, a hierarchy and a digest. -/
theorem skipTkCreation_parses : Parses between Malformed skipTkCreation
    (fun _ w => ∃ (tag : UInt16) (hierarchy : UInt32) (digest : Bytes), digest.length < 65536 ∧
      w = toBeBytes tag ++ (toBeBytes hierarchy ++ tpm2bBytes digest)) := by
  refine (u16_parses.bind fun _ => u32_parses.bind fun _ => tpm2b_parses.bind fun _ =>
    Parses.pure ()).congr fun _ w => ?_
  constructor
  · rintro ⟨tag, _, _, rfl, ⟨hierarchy, _, _, rfl, ⟨digest, _, _, ⟨hdigest, rfl⟩, ⟨rfl, rfl⟩, rfl⟩,
      rfl⟩, rfl⟩
    exact ⟨tag, hierarchy, digest, hdigest, by rw [List.append_nil]⟩
  · rintro ⟨tag, hierarchy, digest, hdigest, rfl⟩
    exact ⟨tag, _, _, rfl, ⟨hierarchy, _, _, rfl, ⟨digest, _, [], ⟨hdigest, rfl⟩, ⟨rfl, rfl⟩,
      (List.append_nil _).symm⟩, rfl⟩, rfl⟩

end Reader

/-- A count that is too large is refused, whatever follows it. -/
theorem readDigestList_absurd (count : UInt32) (h : 0xFFFF < count.toNat) (pre post : Bytes) :
    readDigestList (.between pre (toBeBytes count ++ post)) =
      (.err (.malformed "absurd digest-list count"), .between (pre ++ toBeBytes count) post) := by
  rw [readDigestList, Reader.u32_parses.bind_complete rfl, if_pos h, Exec.throw_apply]

/-! ### Counts and the bytes present -/

theorem PcrSelectionList.length_toBytes_ge (l : PcrSelectionList) :
    4 + 3 * l.list.length ≤ (toBytes l).length := by
  have hselections := length_flatten_ge toBytes 3 l.list fun s _ => by
    rw [PcrSelection.toBytes_eq, List.length_append, List.length_append, length_toBeBytes,
      length_toBeBytes, size_uint16, size_uint8]
    omega
  rw [PcrSelectionList.toBytes_eq, List.length_append, length_toBeBytes, size_uint32]
  omega

theorem length_digestListBytes_ge {l : List Buffer} (h : WireDigests l) :
    4 + 2 * l.length ≤ (digestListBytes l).length := by
  have hdigests := length_flatten_ge toBytes 2 l fun b hb => by
    rw [(h.2 b hb).toBytes_eq, length_tpm2bBytes]
    omega
  rw [digestListBytes, List.length_append, length_toBeBytes, size_uint32]
  omega

/-- No reader of a list returns more elements than there are bytes to read. -/
def CountsBounded {α : Type} (read : Exec Error Reader α) (length : α → ℕ) : Prop :=
  ∀ a pre post r, read (.between pre post) = (.ok a, r) → length a ≤ post.length

theorem InverseLaws.countsBounded {α : Type} {write : α → Bytes} {read : Exec Error Reader α}
    {Wire : α → Prop} (h : InverseLaws write read Wire) (length : α → ℕ)
    (hle : ∀ a, Wire a → length a ≤ (write a).length) : CountsBounded read length := by
  intro a pre post r hread
  obtain ⟨hwire, s, rfl, -⟩ := h.write_read a pre post r hread
  have hbound := hle a hwire
  rw [List.length_append]
  omega

/-- The two laws for a type of the wire vocabulary. -/
abbrev Codec (α : Type) [Marshal α] [Unmarshal α] (Wire : α → Prop) : Prop :=
  InverseLaws toBytes (unmarshal : Exec Error Reader α) Wire

theorem prim_codec (α : Type) [Prim α] : Codec α fun _ => True :=
  .of_parses (Reader.unmarshal_parses.congr fun a w => by rw [wireFormat, true_and]; rfl)

/-- Every type with both directions obeys the laws, and so does the reader of
digest lists up to the count it refuses. -/
theorem codecs_inverse :
    Codec UInt8 (fun _ => True) ∧ Codec UInt16 (fun _ => True) ∧ Codec UInt32 (fun _ => True) ∧
    Codec UInt64 (fun _ => True) ∧ Codec Alg (fun _ => True) ∧ Codec Handle (fun _ => True) ∧
    Codec ObjectAttributes (fun _ => True) ∧ Codec SessionAttributes (fun _ => True) ∧
    Codec Buffer Buffer.Wire ∧ Codec PcrSelection PcrSelection.Wire ∧
    Codec PcrSelectionList PcrSelectionList.Wire ∧
    CountsBounded (unmarshal : Exec Error Reader PcrSelectionList) (fun l => l.list.length) ∧
    InverseLaws digestListBytes readDigestList WireDigests ∧
    CountsBounded readDigestList List.length ∧
    ∀ count : UInt32, 0xFFFF < count.toNat → ∀ pre post,
      (readDigestList (.between pre (toBeBytes count ++ post))).1 =
        .err (.malformed "absurd digest-list count") := by
  have halg : Codec Alg fun _ => True := .of_parses Reader.alg_parses
  have hhandle : Codec Handle fun _ => True := .of_parses
    (Reader.newtype_parses Handle.mk Handle.raw Reader.u32_parses (fun _ => rfl) (fun _ => rfl)
      toBytes_handle)
  have hobject : Codec ObjectAttributes fun _ => True := .of_parses Reader.objectAttributes_parses
  have hsession : Codec SessionAttributes fun _ => True := .of_parses
    (Reader.newtype_parses SessionAttributes.mk SessionAttributes.raw Reader.u8_parses
      (fun _ => rfl) (fun _ => rfl) toBytes_sessionAttributes)
  have hlist : Codec PcrSelectionList PcrSelectionList.Wire :=
    .of_parses Reader.pcrSelectionList_parses
  have hdigests : InverseLaws digestListBytes readDigestList WireDigests :=
    .of_parses Reader.readDigestList_parses
  refine ⟨prim_codec _, prim_codec _, prim_codec _, prim_codec _, halg, hhandle, hobject, hsession,
    .of_parses Reader.buffer_parses, .of_parses Reader.pcrSelection_parses, hlist, ?_, hdigests,
    ?_, ?_⟩
  · apply hlist.countsBounded
    intro l _
    have hbytes := l.length_toBytes_ge
    omega
  · apply hdigests.countsBounded
    intro l hl
    have hbytes := length_digestListBytes_ge hl
    omega
  · intro count hcount pre post
    rw [readDigestList_absurd count hcount pre post]

/-! ### One sized field for every buffer -/

namespace Buffer

/-- Whatever is in the vector stays, and what is added reads as one sized
field, a prefix of the buffer, with whatever follows left unread. -/
def WritesOneField (b : Buffer) : Prop :=
  ∀ out, ∃ w, w ≠ [] ∧ marshal b out = out ++ w ∧
    ∀ pre s, ∃ d, d <+: b.bytes ∧ (b.bytes.length ≤ 65535 → d = b.bytes) ∧
      Reader.tpm2b (.between pre (w ++ s)) = (.ok d, .between (pre ++ w) s)

/-- A buffer that does not fit leaves the vector as it is. -/
theorem not_writesOneField_of_ge {b : Buffer} (h : 65536 ≤ b.bytes.length) :
    ¬ b.WritesOneField := by
  intro hwrites
  obtain ⟨w, hne, hmarshal, -⟩ := hwrites []
  have hnothing : marshal b [] = [] := marshalTpm2bOk_of_ge h []
  rw [hnothing, List.nil_append] at hmarshal
  exact hne hmarshal.symm

/-- A buffer is written as one field exactly if its length fits the prefix; a
longer one is not cut off but left out. -/
theorem writesOneField_iff (b : Buffer) : b.WritesOneField ↔ b.bytes.length ≤ 65535 := by
  refine ⟨fun h => ?_, fun h out => ?_⟩
  · by_contra hlong
    exact not_writesOneField_of_ge (by omega) h
  · have hlt : b.bytes.length < 65536 := Nat.lt_succ_of_le h
    have hlen := length_tpm2bBytes b.bytes
    refine ⟨tpm2bBytes b.bytes, List.ne_nil_of_length_pos (by omega),
      marshalTpm2bOk_of_lt hlt out, fun pre s => ?_⟩
    exact ⟨b.bytes, List.prefix_rfl, fun _ => rfl,
      Reader.tpm2b_parses.complete ⟨hlt, rfl⟩ pre s⟩

/-- One byte too many, and nothing is written. -/
theorem not_writesOneField_zeros : ¬ WritesOneField ⟨List.replicate 65536 0⟩ := by
  apply not_writesOneField_of_ge
  show 65536 ≤ (List.replicate 65536 (0 : UInt8)).length
  rw [List.length_replicate]

end Buffer

end PurecryptoTpm
