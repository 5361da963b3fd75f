import PurecryptoTpm.Error
import PurecryptoTpm.Library.BigEndian
import PurecryptoTpm.Library.Format

/-!
Big-endian marshalling: `src/marshal.rs`. A `Reader` is a cursor over a byte
buffer; every slice, index and subtraction of the source that could go wrong is
partial here and panics outside its domain. `Reader.between pre post` is the cursor
that has read `pre` and still faces `post`, and the last section states, for
every reader function, which format it implements on such cursors.
-/

namespace PurecryptoTpm

/-! ### Writing -/

/-- A type with a canonical big-endian form. Writing only appends, so a value's
form does not depend on what is already in the vector. -/
class Marshal (α : Type) where
  marshal : α → Bytes → Bytes
  marshal_append : ∀ a out, marshal a out = out ++ marshal a []

export Marshal (marshal)

/-- Marshal into a fresh vector. -/
def toBytes {α : Type} [Marshal α] (a : α) : Bytes := marshal a []

theorem marshal_eq {α : Type} [Marshal α] (a : α) (out : Bytes) :
    marshal a out = out ++ toBytes a := Marshal.marshal_append a out

/-- The unsigned integer types the `prim!` macro is expanded at. -/
class Prim (α : Type) where
  size : ℕ
  toNat : α → ℕ
  ofNat : ℕ → α
  toNat_lt : ∀ a, toNat a < 256 ^ size
  ofNat_toNat : ∀ a, ofNat (toNat a) = a
  toNat_ofNat : ∀ n, n < 256 ^ size → toNat (ofNat n) = n

instance : Prim UInt8 where
  size := 1
  toNat := UInt8.toNat
  ofNat := UInt8.ofNat
  toNat_lt := UInt8.toNat_lt
  ofNat_toNat _ := UInt8.ofNat_toNat
  toNat_ofNat _ h := UInt8.toNat_ofNat_of_lt' h

instance : Prim UInt16 where
  size := 2
  toNat := UInt16.toNat
  ofNat := UInt16.ofNat
  toNat_lt := UInt16.toNat_lt
  ofNat_toNat _ := UInt16.ofNat_toNat
  toNat_ofNat _ h := UInt16.toNat_ofNat_of_lt' h

instance : Prim UInt32 where
  size := 4
  toNat := UInt32.toNat
  ofNat := UInt32.ofNat
  toNat_lt := UInt32.toNat_lt
  ofNat_toNat _ := UInt32.ofNat_toNat
  toNat_ofNat _ h := UInt32.toNat_ofNat_of_lt' h

instance : Prim UInt64 where
  size := 8
  toNat := UInt64.toNat
  ofNat := UInt64.ofNat
  toNat_lt := UInt64.toNat_lt
  ofNat_toNat _ := UInt64.ofNat_toNat
  toNat_ofNat _ h := UInt64.toNat_ofNat_of_lt' h

/-- `to_be_bytes`. -/
def toBeBytes {α : Type} [Prim α] (a : α) : Bytes :=
  BigEndian.bytes (Prim.size α) (Prim.toNat a)

/-- `from_be_bytes`. -/
def fromBeBytes {α : Type} [Prim α] (l : Bytes) : α := Prim.ofNat (BigEndian.value l)

instance {α : Type} [Prim α] : Marshal α where
  marshal a out := out ++ toBeBytes a
  marshal_append _ _ := by simp

@[simp] theorem toBytes_prim {α : Type} [Prim α] (a : α) : toBytes a = toBeBytes a := rfl

/-- `u16::try_from`, as used for the length of a `TPM2B`. -/
def tryIntoU16 (n : ℕ) : Option UInt16 := if n < 65536 then some (UInt16.ofNat n) else none

/-- A `UINT16` length prefix followed by the data; nothing is written if the
length does not fit. -/
def marshalTpm2b (data : Bytes) : Exec Error Bytes Unit := fun out =>
  match tryIntoU16 data.length with
  | some len => (.ok (), marshal len out ++ data)
  | none => (.err (.malformed "TPM2B exceeds 65535 bytes"), out)

/-- `marshal_tpm2b(data, &mut p)?` over a vector of the caller. -/
def appendTpm2b {σ : Type} (data p : Bytes) : Exec Error σ Bytes :=
  Exec.alone p do
    marshalTpm2b data
    Exec.get

/-- The `TPM2B` encoding of a string that fits one. -/
def tpm2bBytes (data : Bytes) : Bytes := toBeBytes (UInt16.ofNat data.length) ++ data

theorem marshalTpm2b_of_lt {data : Bytes} (h : data.length < 65536) (out : Bytes) :
    marshalTpm2b data out = (.ok (), out ++ tpm2bBytes data) := by
  simp [marshalTpm2b, tryIntoU16, h, marshal_eq, tpm2bBytes]

theorem marshalTpm2b_of_ge {data : Bytes} (h : 65536 ≤ data.length) (out : Bytes) :
    marshalTpm2b data out = (.err (.malformed "TPM2B exceeds 65535 bytes"), out) := by
  simp [marshalTpm2b, tryIntoU16, Nat.not_lt.mpr h]

theorem appendTpm2b_of_lt {σ : Type} {data : Bytes} (h : data.length < 65536) (p : Bytes) (s : σ) :
    appendTpm2b data p s = (.ok (p ++ tpm2bBytes data), s) := by
  rw [appendTpm2b, Exec.alone_apply, Exec.bind_ok (marshalTpm2b_of_lt h p), Exec.get_apply]

theorem appendTpm2b_of_ge {σ : Type} {data : Bytes} (h : 65536 ≤ data.length) (p : Bytes) (s : σ) :
    appendTpm2b data p s = (.err (.malformed "TPM2B exceeds 65535 bytes"), s) := by
  rw [appendTpm2b, Exec.alone_apply, Exec.bind_err (marshalTpm2b_of_ge h p)]

/-! ### Reading -/

/-- A bounds-checked cursor over a byte buffer. -/
structure Reader where
  buf : Bytes
  pos : ℕ
  deriving DecidableEq

namespace Reader

def new (buf : Bytes) : Reader := { buf, pos := 0 }

/-- The number of unread bytes; the subtraction panics past the end. -/
def remaining : Exec Error Reader ℕ := fun r =>
  if r.pos ≤ r.buf.length then (.ok (r.buf.length - r.pos), r) else (.panic, r)

/-- Whether every byte has been read. -/
def isEmpty : Exec Error Reader Bool := do
  let rem ← remaining
  pure (rem == 0)

/-- The slice `buf[lo..hi]`, which panics unless `lo ≤ hi ≤ buf.len()`. -/
def slice (buf : Bytes) (lo hi : ℕ) : Exec Error Reader Bytes :=
  if lo ≤ hi ∧ hi ≤ buf.length then pure ((buf.drop lo).take (hi - lo)) else Exec.abort

/-- The next `n` bytes. -/
def take (n : ℕ) : Exec Error Reader Bytes := do
  let rem ← remaining
  if rem < n then
    Exec.throw (.malformed "unexpected end of TPM buffer")
  else do
    let self ← Exec.get
    let s ← slice self.buf self.pos (self.pos + n)
    Exec.set { self with pos := self.pos + n }
    pure s

def u8 : Exec Error Reader UInt8 := do
  let b ← take 1
  Exec.index b 0

def u16 : Exec Error Reader UInt16 := do
  let b ← take 2
  let b₀ ← Exec.index b 0
  let b₁ ← Exec.index b 1
  pure (fromBeBytes [b₀, b₁])

def u32 : Exec Error Reader UInt32 := do
  let b ← take 4
  let b₀ ← Exec.index b 0
  let b₁ ← Exec.index b 1
  let b₂ ← Exec.index b 2
  let b₃ ← Exec.index b 3
  pure (fromBeBytes [b₀, b₁, b₂, b₃])

def u64 : Exec Error Reader UInt64 := do
  let b ← take 8
  let b₀ ← Exec.index b 0
  let b₁ ← Exec.index b 1
  let b₂ ← Exec.index b 2
  let b₃ ← Exec.index b 3
  let b₄ ← Exec.index b 4
  let b₅ ← Exec.index b 5
  let b₆ ← Exec.index b 6
  let b₇ ← Exec.index b 7
  pure (fromBeBytes [b₀, b₁, b₂, b₃, b₄, b₅, b₆, b₇])

/-- A `UINT16` byte count followed by that many bytes. -/
def tpm2b : Exec Error Reader Bytes := do
  let len ← u16
  take len.toNat

/-- Everything that is left: `r.take(r.remaining())`. -/
def takeRemaining : Exec Error Reader Bytes := do
  let n ← remaining
  take n

end Reader

/-- A type that can be read from its canonical big-endian form. -/
class Unmarshal (α : Type) where
  unmarshal : Exec Error Reader α

export Unmarshal (unmarshal)

/-- `b.try_into().expect("size checked")`. -/
def expectSize (n : ℕ) (b : Bytes) : Exec Error Reader Bytes :=
  if b.length = n then pure b else Exec.abort

instance {α : Type} [Prim α] : Unmarshal α where
  unmarshal := do
    let b ← Reader.take (Prim.size α)
    let b ← expectSize (Prim.size α) b
    pure (fromBeBytes b)

/-! ### Integers and their big-endian forms -/

section Prim

variable {α : Type} [Prim α]

@[simp] theorem length_toBeBytes (a : α) : (toBeBytes a).length = Prim.size α := by
  simp [toBeBytes]

@[simp] theorem fromBeBytes_toBeBytes (a : α) : fromBeBytes (toBeBytes a) = a := by
  rw [fromBeBytes, toBeBytes, BigEndian.value_bytes_of_lt (Prim.toNat_lt a), Prim.ofNat_toNat]

theorem toBeBytes_fromBeBytes {l : Bytes} (h : l.length = Prim.size α) :
    toBeBytes (fromBeBytes l : α) = l := by
  have hlt : BigEndian.value l < 256 ^ Prim.size α := h ▸ BigEndian.value_lt l
  rw [fromBeBytes, toBeBytes, Prim.toNat_ofNat _ hlt, ← h, BigEndian.bytes_value]

theorem toBeBytes_injective : Function.Injective (toBeBytes : α → Bytes) := fun a b h => by
  rw [← fromBeBytes_toBeBytes a, h, fromBeBytes_toBeBytes]

end Prim

@[simp] theorem size_uint8 : Prim.size UInt8 = 1 := rfl
@[simp] theorem size_uint16 : Prim.size UInt16 = 2 := rfl
@[simp] theorem size_uint32 : Prim.size UInt32 = 4 := rfl

theorem toBeBytes_uint8 (b : UInt8) : toBeBytes b = [b] := by
  simp [toBeBytes, BigEndian.bytes, Prim.toNat, Prim.size]

@[simp] theorem length_tpm2bBytes (d : Bytes) : (tpm2bBytes d).length = 2 + d.length := by
  simp [tpm2bBytes]

/-! ### Cursors as a pair of strings -/

/-- The format of an integer: its big-endian bytes. -/
def primFormat (α : Type) [Prim α] : Format UInt8 α := fun a w => w = toBeBytes a

/-- The format of a `TPM2B`. -/
def tpm2bFormat : Format UInt8 Bytes := fun d w => d.length < 65536 ∧ w = tpm2bBytes d

/-- The errors of the reader. -/
def Malformed (e : Error) : Prop := ∃ message, e = .malformed message

namespace Reader

/-- The cursor that has read `pre` and still faces `post`. -/
def between (pre post : Bytes) : Reader := { buf := pre ++ post, pos := pre.length }

theorem between_inj (u v s t : Bytes) (h : between u s = between v t) : u = v ∧ s = t := by
  simp only [between, Reader.mk.injEq] at h
  exact List.append_inj h.1 h.2

theorem new_eq_between (buf : Bytes) : new buf = between [] buf := rfl

@[simp] theorem remaining_between (pre post : Bytes) :
    remaining (between pre post) = (.ok post.length, between pre post) := by
  simp [remaining, between]

theorem take_between {pre w post : Bytes} :
    take w.length (between pre (w ++ post)) = (.ok w, between (pre ++ w) post) := by
  rw [take, Exec.bind_ok (remaining_between _ _)]
  simp [between, slice]

theorem take_short {n : ℕ} {pre post : Bytes} (h : post.length < n) :
    take n (between pre post) =
      (.err (.malformed "unexpected end of TPM buffer"), between pre post) := by
  rw [take, Exec.bind_ok (remaining_between _ _), if_pos h, Exec.throw_apply]

theorem takeRemaining_between (pre post : Bytes) :
    takeRemaining (between pre post) = (.ok post, between (pre ++ post) []) := by
  rw [takeRemaining, Exec.bind_ok (remaining_between _ _)]
  have htake := @take_between pre post []
  rwa [List.append_nil] at htake

theorem take_parses (n : ℕ) :
    Parses between Malformed (take n) (fun d w => w = d ∧ d.length = n) where
  complete := by
    rintro d w ⟨rfl, rfl⟩ pre post
    exact take_between
  sound pre post := by
    by_cases h : n ≤ post.length
    · exact .inl ⟨post.take n, post.take n, post.drop n, ⟨rfl, by simp [h]⟩, by simp⟩
    · exact .inr ⟨_, pre, post, ⟨_, rfl⟩, rfl, take_short (by omega)⟩

/-- Reading a fixed number of bytes and decoding them as an integer. -/
theorem prim_parses {α : Type} [Prim α] {f : Bytes → Exec Error Reader α}
    (hf : ∀ b, b.length = Prim.size α → f b = pure (fromBeBytes b)) :
    Parses between Malformed (take (Prim.size α) >>= f) (primFormat α) where
  complete := by
    rintro a w rfl pre post
    have htake := (take_parses (Prim.size α)).complete ⟨rfl, length_toBeBytes a⟩ pre post
    rw [Exec.bind_ok htake, hf _ (length_toBeBytes a), fromBeBytes_toBeBytes, Exec.pure_apply]
  sound pre post := by
    rcases (take_parses (Prim.size α)).cases pre post with
      ⟨d, w, post', ⟨rfl, hlen⟩, rfl, -⟩ | ⟨e, pre', post', he, hsame, herr⟩
    · exact .inl ⟨fromBeBytes w, w, post', (toBeBytes_fromBeBytes hlen).symm, rfl⟩
    · exact .inr ⟨e, pre', post', he, hsame, Exec.bind_err herr⟩

theorem unmarshal_parses {α : Type} [Prim α] :
    Parses between Malformed (unmarshal : Exec Error Reader α) (primFormat α) :=
  prim_parses fun b hb => by
    funext r
    simp [expectSize, hb]

theorem u8_parses : Parses between Malformed u8 (primFormat UInt8) :=
  prim_parses fun b hb => by
    obtain ⟨x, rfl⟩ := List.length_eq_one_iff.mp hb
    have hx : fromBeBytes [x] = x := by rw [← toBeBytes_uint8 x, fromBeBytes_toBeBytes]
    rw [hx]
    rfl

theorem u16_parses : Parses between Malformed u16 (primFormat UInt16) :=
  prim_parses fun b hb => by
    obtain ⟨x, y, rfl⟩ := List.length_eq_two.mp hb
    rfl

theorem u32_parses : Parses between Malformed u32 (primFormat UInt32) :=
  prim_parses fun b hb => by
    match b, hb with
    | [_, _, _, _], _ => rfl

theorem u64_parses : Parses between Malformed u64 (primFormat UInt64) :=
  prim_parses fun b hb => by
    match b, hb with
    | [_, _, _, _, _, _, _, _], _ => rfl

theorem tpm2b_parses : Parses between Malformed tpm2b tpm2bFormat := by
  refine (u16_parses.bind fun len => take_parses len.toNat).congr fun d w => ?_
  constructor
  · rintro ⟨len, u, v, rfl, ⟨rfl, hlen⟩, rfl⟩
    have hofNat : UInt16.ofNat v.length = len := by rw [hlen, UInt16.ofNat_toNat]
    exact ⟨hlen ▸ len.toNat_lt, by rw [tpm2bBytes, hofNat]⟩
  · rintro ⟨hlt, rfl⟩
    exact ⟨UInt16.ofNat d.length, _, d, rfl, ⟨rfl, (UInt16.toNat_ofNat_of_lt' hlt).symm⟩, rfl⟩

/-- A fresh reader succeeds on the encodings with anything behind them. -/
theorem new_ok_iff {α : Type} {p : Exec Error Reader α} {E : Format UInt8 α}
    (h : Parses between Malformed p E) (buf : Bytes) (a : α) :
    (p (new buf)).1 = .ok a ↔ ∃ w rest, E a w ∧ buf = w ++ rest := by
  rw [new_eq_between]
  refine ⟨fun hok => ?_, fun hE => ?_⟩
  · rcases h.cases [] buf with ⟨a', w, rest, hE, hbuf, hread⟩ | ⟨e, _, _, -, -, herr⟩
    · obtain rfl : a' = a := by simpa [hread] using hok
      exact ⟨w, rest, hE, hbuf⟩
    · simp [herr] at hok
  · obtain ⟨w, rest, hE, rfl⟩ := hE
    rw [h.complete hE]

/-- Read off a buffer of its own, an encoding leaves the caller's state alone. -/
theorem alone_new {σ α : Type} {p : Exec Error Reader α} {E : Format UInt8 α}
    (h : Parses between Malformed p E) {a : α} {w : Bytes} (hE : E a w) (s : σ) :
    (Exec.alone (new w) p : Exec Error σ α) s = (.ok a, s) := by
  have hok := (new_ok_iff h w a).mpr ⟨w, [], hE, (List.append_nil w).symm⟩
  rw [Exec.alone_apply, hok]

end Reader

end PurecryptoTpm
