import PurecryptoTpm.Codec
import PurecryptoTpm.Commands.Object
import PurecryptoTpm.Commands.Pcr
import PurecryptoTpm.Commands.Session
import PurecryptoTpm.Framing
import PurecryptoTpm.KeyDerivation
import PurecryptoTpm.Library.Safe

/-!
No response makes the stack panic. A reader stays inside its buffer whatever is
read from it and however often that fails, `run` returns as many handles as it
was asked for, and so every partial operation of the commands is used inside
its domain.
-/

namespace PurecryptoTpm

open Exec

/-! ### Readers -/

/-- The operations of a reader. -/
inductive ReaderOp where
  | remaining
  | isEmpty
  | take (n : ℕ)
  | u8
  | u16
  | u32
  | u64
  | tpm2b
  | unmarshalU8
  | unmarshalU16
  | unmarshalU32
  | unmarshalU64

namespace ReaderOp

/-- Perform an operation and drop what it returns. -/
def perform : ReaderOp → Exec Error Reader Unit
  | remaining => do let _ ← Reader.remaining
  | isEmpty => do let _ ← Reader.isEmpty
  | take n => do let _ ← Reader.take n
  | u8 => do let _ ← Reader.u8
  | u16 => do let _ ← Reader.u16
  | u32 => do let _ ← Reader.u32
  | u64 => do let _ ← Reader.u64
  | tpm2b => do let _ ← Reader.tpm2b
  | unmarshalU8 => do let _ : UInt8 ← unmarshal
  | unmarshalU16 => do let _ : UInt16 ← unmarshal
  | unmarshalU32 => do let _ : UInt32 ← unmarshal
  | unmarshalU64 => do let _ : UInt64 ← unmarshal

/-- The reader behind a number of operations, each performed however the ones
before it ended. -/
def performAll (ops : List ReaderOp) (r : Reader) : Reader :=
  ops.foldl (fun r op => (op.perform r).2) r

end ReaderOp

namespace Reader

/-- A cursor over a given buffer, inside it. -/
def Over (buf : Bytes) (r : Reader) : Prop := ∃ pre post, r = between pre post ∧ pre ++ post = buf

theorem over_new (buf : Bytes) : Over buf (new buf) := ⟨[], buf, rfl, rfl⟩

theorem over_iff (buf : Bytes) (r : Reader) : Over buf r ↔ r.buf = buf ∧ r.pos ≤ buf.length := by
  constructor
  · rintro ⟨pre, post, rfl, rfl⟩
    exact ⟨rfl, by simp [between]⟩
  · rintro ⟨rfl, hpos⟩
    refine ⟨r.buf.take r.pos, r.buf.drop r.pos, ?_, List.take_append_drop ..⟩
    rw [between, List.take_append_drop, List.length_take, Nat.min_eq_left hpos]

variable {buf : Bytes}

theorem remaining_safe : Safe (Over buf) remaining Anything := by
  apply Safe.of_cases
  rintro _ ⟨pre, post, rfl, hbuf⟩
  exact .inl ⟨_, _, remaining_between pre post, ⟨pre, post, rfl, hbuf⟩, trivial⟩

theorem isEmpty_safe : Safe (Over buf) isEmpty Anything :=
  remaining_safe.bind fun _ _ => .pure trivial

theorem takeRemaining_safe : Safe (Over buf) takeRemaining Anything :=
  remaining_safe.bind fun n _ => (take_parses n).safe buf

end Reader

theorem ReaderOp.perform_safe (op : ReaderOp) (buf : Bytes) :
    Safe (Reader.Over buf) op.perform Anything := by
  cases op with
  | remaining => exact Reader.remaining_safe.bind fun _ _ => .pure trivial
  | isEmpty => exact Reader.isEmpty_safe.bind fun _ _ => .pure trivial
  | take n => exact ((Reader.take_parses n).safe buf).bind fun _ _ => .pure trivial
  | u8 => exact (Reader.u8_parses.safe buf).bind fun _ _ => .pure trivial
  | u16 => exact (Reader.u16_parses.safe buf).bind fun _ _ => .pure trivial
  | u32 => exact (Reader.u32_parses.safe buf).bind fun _ _ => .pure trivial
  | u64 => exact (Reader.u64_parses.safe buf).bind fun _ _ => .pure trivial
  | tpm2b => exact (Reader.tpm2b_parses.safe buf).bind fun _ _ => .pure trivial
  | unmarshalU8 => exact (Reader.unmarshal_parses.safe buf).bind fun _ _ => .pure trivial
  | unmarshalU16 => exact (Reader.unmarshal_parses.safe buf).bind fun _ _ => .pure trivial
  | unmarshalU32 => exact (Reader.unmarshal_parses.safe buf).bind fun _ _ => .pure trivial
  | unmarshalU64 => exact (Reader.unmarshal_parses.safe buf).bind fun _ _ => .pure trivial

theorem ReaderOp.performAll_over {buf : Bytes} {r : Reader} (h : Reader.Over buf r)
    (ops : List ReaderOp) : Reader.Over buf (performAll ops r) := by
  induction ops generalizing r with
  | nil => exact h
  | cons op ops ih => exact ih ((op.perform_safe buf).keeps h)

/-- What is taken from a reader was still ahead of it. -/
theorem Reader.Over.take_bound {buf w : Bytes} {r r' : Reader} {n : ℕ} (h : r.Over buf)
    (htake : Reader.take n r = (.ok w, r')) : r.pos + n ≤ buf.length := by
  obtain ⟨pre, post, rfl, rfl⟩ := h
  rcases (Reader.take_parses n).cases pre post with
    ⟨d, w', post', ⟨rfl, hlen⟩, rfl, -⟩ | ⟨e, pre', post', -, -, herr⟩
  · show pre.length + n ≤ (pre ++ (w' ++ post')).length
    rw [List.length_append, List.length_append, hlen]
    omega
  · rw [herr] at htake
    simp at htake

/-! ### Running a command -/

section Methods

variable {τ : Type} {P : Purecrypto}

theorem withAuth_safe {α : Type} {x : Exec Error (Env τ) α} {Q : α → Prop} (auth : Auth)
    (h : Safe Anywhere x Q) : Safe Anywhere (Env.withAuth auth x) Q :=
  fun _ _ => ⟨trivial, (h _ trivial).2⟩

theorem onCaller_safe {α : Type} {x : Exec Error (Auth × OsRng) α} {Q : α → Prop}
    (h : Safe Anywhere x Q) : Safe Anywhere (Env.onCaller x : Exec Error (Env τ) α) Q :=
  fun _ _ => ⟨trivial, (h _ trivial).2⟩

/-- Reading the parameters of a response. -/
theorem readParams_safe {α : Type} {y : Exec Error Reader α} {params : Bytes}
    (h : Safe (Reader.Over params) y Anything) :
    Safe Anywhere (Exec.alone (Reader.new params) y : Exec Error (Env τ) α) Anything :=
  h.alone (Reader.over_new params)

/-- The one handle a response was asked for is there to be taken. -/
theorem handle_safe {σ : Type} {raw : RawResponse} (h : raw.handles.length = 1) :
    Safe Anywhere (Exec.index raw.handles 0 : Exec Error σ Handle) Anything :=
  .index (by omega)

theorem interpret_outcome (P : Purecrypto) (code : UInt32) (names : List Bytes) (n : ℕ)
    (outcome : Except Error Bytes) (auth : Auth) :
    (∃ raw, (interpret P code names n outcome auth).1 = .ok raw ∧ raw.handles.length = n) ∨
      ∃ e, (interpret P code names n outcome auth).1 = .err e := by
  cases outcome with
  | error e => exact .inr ⟨e, rfl⟩
  | ok resp =>
      rw [interpret_ok]
      rcases parseResponse_cases P code resp names n auth with
        ⟨reply, hreading, -, hok⟩ | ⟨_, _, rc, _, -, -, herr⟩ | ⟨e, -, herr⟩
      · refine .inl ⟨reply.raw, by rw [hok], ?_⟩
        cases hreading with
        | bare _ hcount _ => exact hcount
        | authorized hcount _ _ => exact hcount
      · exact .inr ⟨_, by rw [herr]⟩
      · exact .inr ⟨e, by rw [herr]⟩

variable [Transport τ]

/-- `run` returns the number of handles it was asked for, or an error. -/
theorem run_safe (code : UInt32) (handles : List Handle) (names : List Bytes) (params : Bytes)
    (respHandles : ℕ) :
    Safe Anywhere (run P code handles names params respHandles : Exec Error (Env τ) RawResponse)
      (fun raw => raw.handles.length = respHandles) := by
  apply Safe.of_cases
  intro env _
  by_cases hbuildable : env.auth.Buildable
  · obtain ⟨frame, ⟨auth', os'⟩, hframe⟩ :=
      @requestFrame_of_buildable P code handles names params env.auth hbuildable env.os
    obtain ⟨k, t, -, -, -, hrun⟩ := @run_of_frame τ _ P code handles names params respHandles frame
      env auth' os' hframe
    rw [hrun]
    rcases interpret_outcome P code names respHandles (Transport.transmit frame t).1 auth' with
      ⟨raw, hok, hcount⟩ | ⟨e, herr⟩
    · rw [hok]
      exact .inl ⟨raw, _, rfl, trivial, hcount⟩
    · rw [herr]
      exact .inr ⟨e, _, rfl, trivial⟩
  · obtain ⟨e, herr⟩ :=
      @requestFrame_of_not_buildable P code handles names params env.auth hbuildable env.os
    rw [run_of_frame_err herr]
    exact .inr ⟨e, _, rfl, trivial⟩

theorem runBare_safe (code : UInt32) (p : Bytes) :
    Safe Anywhere (runBare P code p : Exec Error (Env τ) RawResponse) Anything :=
  withAuth_safe _ ((run_safe code [] [] p 0).mono fun _ _ => trivial)

theorem appendTpm2b_safe {σ : Type} (data p : Bytes) :
    Safe Anywhere (appendTpm2b data p : Exec Error σ Bytes) Anything := by
  apply Safe.of_cases
  intro s _
  by_cases h : data.length < 65536
  · exact .inl ⟨_, _, appendTpm2b_of_lt h p s, trivial, trivial⟩
  · exact .inr ⟨_, _, appendTpm2b_of_ge (Nat.le_of_not_lt h) p s, trivial⟩

theorem single_safe {σ : Type} (hash : Alg) (pcr : UInt8) :
    Safe Anywhere (PcrSelection.single hash pcr : Exec Error σ PcrSelection) Anything :=
  (Safe.setIndex (by simp) _).bind fun _ _ => .pure trivial

/-- A session is built or refused, whatever the TPM answered. -/
theorem session_new_safe {σ : Type} (handle : Handle) (hashAlg : Alg)
    (nonceTpm nonceCaller : Bytes) (attributes : SessionAttributes)
    (bindAuth bindName salt : Bytes) :
    Safe Anywhere (Session.new P handle hashAlg nonceTpm nonceCaller attributes bindAuth bindName
      salt : Exec Error σ Session) Anything := by
  rw [Session.new, crypto.digestSize_eq]
  cases hd : Digest.ofAlg hashAlg with
  | none => exact Safe.bind (Q := fun _ => False) (Safe.throw _) fun _ h => h.elim
  | some d =>
      refine Safe.bind (Q := Anything) (Safe.ofExcept fun _ _ => trivial) fun size _ => ?_
      refine Safe.ite (fun _ => ?_) fun _ => ?_
      · exact Safe.bind (Q := Anything) (.pure trivial) fun _ _ => .pure trivial
      · refine Safe.bind (Q := Anything) ?_ fun _ _ => .pure trivial
        apply Safe.of_cases
        intro s _
        obtain ⟨out, hok, -⟩ := kdfa_of_some hd s
        exact .inl ⟨out, s, hok, trivial, trivial⟩

/-- The command methods with their arguments. -/
inductive Method where
  | startup (startupType : UInt16)
  | shutdown (shutdownType : UInt16)
  | selfTest (full : Bool)
  | getRandom (bytes : UInt16)
  | stirRandom (data : Bytes)
  | getCapability (capability property count : UInt32)
  | pcrRead (selection : PcrSelectionList)
  | pcrReadOne (bank : Alg) (pcr : UInt8)
  | pcrExtend (pcr : UInt32) (digests : List (Alg × Bytes))
  | startAuthSession (hashAlg : Alg) (nonceCaller : Bytes)
  | startHmacSession (hashAlg : Alg)
  | flushContext (handle : Handle)
  | createPrimary (hierarchy : Handle) (sensitive : SensitiveCreate) (public_ : Public)
  | create (parent : Handle) (parentName : Bytes) (sensitive : SensitiveCreate)
      (public_ : Public)
  | load (parent : Handle) (parentName : Bytes) (inPrivate inPublic : Buffer)
  | unseal_ (item : Handle) (itemName : Bytes)

/-- Call a method and drop what it returns. -/
def Method.call (P : Purecrypto) : Method → Exec Error (Env τ) Unit
  | startup startupType => do let _ ← PurecryptoTpm.startup P startupType
  | shutdown shutdownType => do let _ ← PurecryptoTpm.shutdown P shutdownType
  | selfTest full => do let _ ← PurecryptoTpm.selfTest P full
  | getRandom bytes => do let _ ← PurecryptoTpm.getRandom P bytes
  | stirRandom data => do let _ ← PurecryptoTpm.stirRandom P data
  | getCapability capability property count => do
      let _ ← PurecryptoTpm.getCapability P capability property count
  | pcrRead selection => do let _ ← PurecryptoTpm.pcrRead P selection
  | pcrReadOne bank pcr => do let _ ← PurecryptoTpm.pcrReadOne P bank pcr
  | pcrExtend pcr digests => do let _ ← PurecryptoTpm.pcrExtend P pcr digests
  | startAuthSession hashAlg nonceCaller => do
      let _ ← PurecryptoTpm.startAuthSession P hashAlg nonceCaller
  | startHmacSession hashAlg => do let _ ← PurecryptoTpm.startHmacSession P hashAlg
  | flushContext handle => do let _ ← PurecryptoTpm.flushContext P handle
  | createPrimary hierarchy sensitive public_ => do
      let _ ← PurecryptoTpm.createPrimary P hierarchy sensitive public_
  | create parent parentName sensitive public_ => do
      let _ ← PurecryptoTpm.create P parent parentName sensitive public_
  | load parent parentName inPrivate inPublic => do
      let _ ← PurecryptoTpm.load P parent parentName inPrivate inPublic
  | unseal_ item itemName => do let _ ← PurecryptoTpm.unseal_ P item itemName

/-- A command without handles in its response, of which nothing is read. -/
theorem runBare_unit_safe (code : UInt32) (p : Bytes) :
    Safe Anywhere (do let _ ← runBare P code p : Exec Error (Env τ) Unit) Anything :=
  (runBare_safe code p).bind fun _ _ => .pure trivial

theorem pcrRead_safe (selection : PcrSelectionList) :
    Safe Anywhere (pcrRead P selection : Exec Error (Env τ) PcrReadResult) Anything :=
  (runBare_safe _ _).bind fun _ _ => readParams_safe
    ((Reader.u32_parses.safe _).bind fun _ _ => (Reader.pcrSelectionList_parses.safe _).bind
      fun _ _ => (Reader.readDigestList_parses.safe _).bind fun _ _ => .pure trivial)

theorem startAuthSession_safe (hashAlg : Alg) (nonceCaller : Bytes) :
    Safe Anywhere (startAuthSession P hashAlg nonceCaller : Exec Error (Env τ) Session)
      Anything := by
  refine Safe.bind (Q := Anything) ?_ fun p _ => ?_
  · exact (appendTpm2b_safe _ _).bind fun _ _ => (appendTpm2b_safe _ _).bind fun _ _ =>
      .pure trivial
  · refine (withAuth_safe .none (run_safe _ _ _ p 1)).bind fun raw hcount => ?_
    refine (handle_safe hcount).bind fun handle _ => ?_
    refine (readParams_safe (Reader.tpm2b_parses.safe _)).bind fun nonceTpm _ => ?_
    exact session_new_safe handle hashAlg nonceTpm nonceCaller _ [] [] []

theorem createPrimary_safe (hierarchy : Handle) (sensitive : SensitiveCreate) (public_ : Public) :
    Safe Anywhere (createPrimary P hierarchy sensitive public_ :
      Exec Error (Env τ) CreatePrimaryResult) Anything := by
  refine (run_safe _ _ _ _ 1).bind fun raw hcount => (handle_safe hcount).bind fun _ _ =>
    readParams_safe ?_
  exact (Reader.tpm2b_parses.safe _).bind fun _ _ => (Reader.tpm2b_parses.safe _).bind fun _ _ =>
    (Reader.tpm2b_parses.safe _).bind fun _ _ => (Reader.skipTkCreation_parses.safe _).bind
      fun _ _ => (Reader.tpm2b_parses.safe _).bind fun _ _ => .pure trivial

/-- Every method ends with a value or an error. -/
theorem Method.call_safe (m : Method) :
    Safe Anywhere (m.call P : Exec Error (Env τ) Unit) Anything := by
  cases m with
  | startup startupType => exact (runBare_unit_safe _ _).bind fun _ _ => .pure trivial
  | shutdown shutdownType => exact (runBare_unit_safe _ _).bind fun _ _ => .pure trivial
  | selfTest full => exact (runBare_unit_safe _ _).bind fun _ _ => .pure trivial
  | getRandom bytes =>
      exact ((runBare_safe _ _).bind fun _ _ => readParams_safe (Reader.tpm2b_parses.safe _)).bind
        fun _ _ => .pure trivial
  | stirRandom data =>
      refine Safe.bind (Q := Anything) ?_ fun _ _ => .pure trivial
      exact .ite (fun _ => .throw _) fun _ => (appendTpm2b_safe _ _).bind fun _ _ =>
        runBare_unit_safe _ _
  | getCapability capability property count =>
      refine Safe.bind (Q := Anything) ?_ fun _ _ => .pure trivial
      exact (runBare_safe _ _).bind fun _ _ => readParams_safe
        ((Reader.u8_parses.safe _).bind fun _ _ => (Reader.u32_parses.safe _).bind fun _ _ =>
          Reader.takeRemaining_safe.bind fun _ _ => .pure trivial)
  | pcrRead selection => exact (pcrRead_safe selection).bind fun _ _ => .pure trivial
  | pcrReadOne bank pcr =>
      refine Safe.bind (Q := Anything) ?_ fun _ _ => .pure trivial
      exact (single_safe bank pcr).bind fun _ _ => (pcrRead_safe _).bind fun _ _ => .pure trivial
  | pcrExtend pcr digests =>
      refine Safe.bind (Q := Anything) ?_ fun _ _ => .pure trivial
      exact (run_safe _ _ _ _ 0).bind fun _ _ => .pure trivial
  | startAuthSession hashAlg nonceCaller =>
      exact (startAuthSession_safe hashAlg nonceCaller).bind fun _ _ => .pure trivial
  | startHmacSession hashAlg =>
      refine Safe.bind (Q := Anything) ?_ fun _ _ => .pure trivial
      refine Safe.bind (Q := Anything) (.ofExcept fun _ _ => trivial) fun n _ => ?_
      have hfill : Safe Anywhere (OsRng.fillBytes n) Anything :=
        fun _ _ => ⟨trivial, fun _ _ => trivial, by simp [OsRng.fillBytes]⟩
      exact (onCaller_safe hfill.onSnd).bind fun _ _ => startAuthSession_safe _ _
  | flushContext handle => exact (runBare_unit_safe _ _).bind fun _ _ => .pure trivial
  | createPrimary hierarchy sensitive public_ =>
      exact (createPrimary_safe hierarchy sensitive public_).bind fun _ _ => .pure trivial
  | create parent parentName sensitive public_ =>
      refine Safe.bind (Q := Anything) ?_ fun _ _ => .pure trivial
      exact (run_safe _ _ _ _ 0).bind fun _ _ => readParams_safe
        ((Reader.tpm2b_parses.safe _).bind fun _ _ => (Reader.tpm2b_parses.safe _).bind
          fun _ _ => .pure trivial)
  | load parent parentName inPrivate inPublic =>
      refine Safe.bind (Q := Anything) ?_ fun _ _ => .pure trivial
      exact (run_safe _ _ _ _ 1).bind fun raw hcount => (handle_safe hcount).bind fun _ _ =>
        readParams_safe ((Reader.tpm2b_parses.safe _).bind fun _ _ => .pure trivial)
  | unseal_ item itemName =>
      refine Safe.bind (Q := Anything) ?_ fun _ _ => .pure trivial
      exact (run_safe _ _ _ _ 0).bind fun _ _ => readParams_safe (Reader.tpm2b_parses.safe _)

end Methods

/-- Whatever a transport answers, no method panics, `run` returns as many
handles as it was asked for, and a reader stays inside its buffer. -/
theorem stack_panicFree (P : Purecrypto) :
    (∀ (τ : Type) [Transport τ] (m : Method) (env : Env τ), (m.call P env).1 ≠ .panic) ∧
    (∀ (τ : Type) [Transport τ] (code : UInt32) (handles : List Handle) (names : List Bytes)
      (params : Bytes) (respHandles : ℕ) (env : Env τ),
      (run P code handles names params respHandles env).1 ≠ .panic ∧
      ∀ raw, (run P code handles names params respHandles env).1 = .ok raw →
        raw.handles.length = respHandles) ∧
    ∀ (buf : Bytes) (ops : List ReaderOp),
      let r := ReaderOp.performAll ops (Reader.new buf)
      r.buf = buf ∧ r.pos ≤ buf.length ∧ (∀ op : ReaderOp, (op.perform r).1 ≠ .panic) ∧
      (Reader.remaining r).1 = .ok (buf.length - r.pos) ∧
      ∀ n w r', Reader.take n r = (.ok w, r') → r.pos + n ≤ buf.length := by
  refine ⟨?_, ?_, ?_⟩
  · intro τ _ m env
    exact m.call_safe.ne_panic trivial
  · intro τ _ code handles names params respHandles env
    obtain ⟨-, hcount, hpanic⟩ := @run_safe τ P _ code handles names params respHandles env trivial
    exact ⟨hpanic, hcount⟩
  · intro buf ops r
    have hover : r.Over buf := ReaderOp.performAll_over (Reader.over_new buf) ops
    obtain ⟨hbuf, hpos⟩ := (Reader.over_iff buf r).1 hover
    refine ⟨hbuf, hpos, fun op => (op.perform_safe buf).ne_panic hover, ?_, ?_⟩
    · rw [Reader.remaining, hbuf, if_pos hpos]
    · intro n w r' htake
      exact hover.take_bound htake

end PurecryptoTpm
