import PurecryptoTpm.Library.Simulation
import PurecryptoTpm.PanicFreedom
import PurecryptoTpm.PcrExtension
import PurecryptoTpm.PcrReading
import PurecryptoTpm.HandleOwnership
import PurecryptoTpm.Sealing

/-!
Programs of the host, and what they can tell of a transport. A program calls
methods and goes on with whatever they return; it may put another
authorization in place at any point. Two transports whose transmissions cannot
be told apart cannot be told apart by any program either.
-/

namespace PurecryptoTpm

open Exec

/-! ### Programs -/

/-- What a method returns. -/
def Method.Result : Method → Type
  | startup _ => Unit
  | shutdown _ => Unit
  | selfTest _ => Unit
  | getRandom _ => Bytes
  | stirRandom _ => Unit
  | getCapability _ _ _ => CapabilityData
  | pcrRead _ => PcrReadResult
  | pcrReadOne _ _ => Option Buffer
  | pcrExtend _ _ => Unit
  | startAuthSession _ _ => Session
  | startHmacSession _ => Session
  | flushContext _ => Unit
  | createPrimary _ _ _ => CreatePrimaryResult
  | create _ _ _ _ => CreateResult
  | load _ _ _ _ => LoadResult
  | unseal_ _ _ => Bytes

section Programs

variable {τ : Type} [Transport τ]

def Method.invoke (P : Purecrypto) : (m : Method) → Exec Error (Env τ) m.Result
  | startup startupType => PurecryptoTpm.startup P startupType
  | shutdown shutdownType => PurecryptoTpm.shutdown P shutdownType
  | selfTest full => PurecryptoTpm.selfTest P full
  | getRandom bytes => PurecryptoTpm.getRandom P bytes
  | stirRandom data => PurecryptoTpm.stirRandom P data
  | getCapability capability property count =>
      PurecryptoTpm.getCapability P capability property count
  | pcrRead selection => PurecryptoTpm.pcrRead P selection
  | pcrReadOne bank pcr => PurecryptoTpm.pcrReadOne P bank pcr
  | pcrExtend pcr digests => PurecryptoTpm.pcrExtend P pcr digests
  | startAuthSession hashAlg nonceCaller => PurecryptoTpm.startAuthSession P hashAlg nonceCaller
  | startHmacSession hashAlg => PurecryptoTpm.startHmacSession P hashAlg
  | flushContext handle => PurecryptoTpm.flushContext P handle
  | createPrimary hierarchy sensitive public_ =>
      PurecryptoTpm.createPrimary P hierarchy sensitive public_
  | create parent parentName sensitive public_ =>
      PurecryptoTpm.create P parent parentName sensitive public_
  | load parent parentName inPrivate inPublic =>
      PurecryptoTpm.load P parent parentName inPrivate inPublic
  | unseal_ item itemName => PurecryptoTpm.unseal_ P item itemName

/-- A program of the host. -/
inductive Host (α : Type) where
  | done (a : α)
  | call (m : Method) (next : Outcome Error m.Result → Host α)
  /-- Put another authorization in place and get the one that was there. -/
  | swapAuth (auth : Auth) (next : Auth → Host α)

def Host.run {α : Type} (P : Purecrypto) : Host α → Exec Error (Env τ) α
  | done a => pure a
  | call m next => do
      let o ← Exec.reify (m.invoke P)
      (next o).run P
  | swapAuth auth next => do
      let env ← Exec.get
      Exec.set { env with auth := auth }
      (next env.auth).run P

end Programs

/-! ### The lengths of frames -/

/-- The methods whose parameters are shorter than 2^31 bytes. Only lists the
caller supplies can be longer. -/
def Method.Short : Method → Prop
  | pcrRead selection => (toBytes selection).length < 2147483648
  | pcrExtend _ digests => (extendParams digests).length < 2147483648
  | _ => True

def Host.Short {α : Type} : Host α → Prop
  | done _ => True
  | call m next => m.Short ∧ ∀ o, (next o).Short
  | swapAuth _ next => ∀ auth, (next auth).Short

/-- The frames that hold a header and fit its size field. -/
def FrameFits (frame : Bytes) : Prop := 10 ≤ frame.length ∧ frame.length < 4294967296

theorem requestFrame_fits {P : Purecrypto} {code : UInt32} {handles : List Handle}
    {names : List Bytes} {params frame : Bytes} {places : Auth × OsRng}
    (hparams : 4 * handles.length + params.length < 4294836203)
    (h : (requestFrame P code handles names params places).1 = .ok frame) : FrameFits frame := by
  obtain ⟨auth, os⟩ := places
  by_cases hbuildable : auth.Buildable
  · obtain ⟨entry, places, hbody, -, -⟩ :=
      @requestBody_of_buildable P code handles names params auth hbuildable os
    have hlen := length_requestBody_le hbody
    rw [requestFrame_of_body hbody] at h
    obtain rfl := Outcome.ok.inj h
    simp only [FrameFits, commandFrame, List.length_append, length_toBeBytes, size_uint16,
      size_uint32]
    omega
  · obtain ⟨e, herr⟩ :=
      @requestFrame_of_not_buildable P code handles names params auth hbuildable os
    rw [herr] at h
    simp at h

/-! ### Transports that cannot be told apart -/

/-- Transmissions of frames that fit have the same outcome and keep `R`. -/
def Interchangeable {τ τ' : Type} [Transport τ] [Transport τ'] (R : τ → τ' → Prop) : Prop :=
  ∀ frame t t', FrameFits frame → R t t' →
    (Transport.transmit frame t).1 = (Transport.transmit frame t').1 ∧
      R (Transport.transmit frame t).2 (Transport.transmit frame t').2

/-- Everything but the transport is the same. -/
structure Env.Alike {τ τ' : Type} (R : τ → τ' → Prop) (env : Env τ) (env' : Env τ') : Prop where
  transport : R env.transport env'.transport
  auth : env.auth = env'.auth
  os : env.os = env'.os

section Alike

variable {τ τ' α : Type} {R : τ → τ' → Prop}

theorem onCaller_simulates (x : Exec Error (Auth × OsRng) α) :
    Simulates (Env.Alike R) (Env.onCaller x) (Env.onCaller x) := by
  rintro ⟨t, auth, os⟩ ⟨t', _, _⟩ ⟨ht, rfl, rfl⟩
  exact ⟨rfl, ht, rfl, rfl⟩

theorem onTransport_simulates {x : Exec Error τ α} {y : Exec Error τ' α} (h : Simulates R x y) :
    Simulates (Env.Alike R) (Env.onTransport x) (Env.onTransport y) := by
  rintro ⟨t, auth, os⟩ ⟨t', _, _⟩ ⟨ht, rfl, rfl⟩
  obtain ⟨ho, hs⟩ := h t t' ht
  exact ⟨ho, hs, rfl, rfl⟩

theorem onAuth_simulates (x : Exec Error Auth α) :
    Simulates (Env.Alike R) (Env.onAuth x) (Env.onAuth x) := by
  rintro ⟨t, auth, os⟩ ⟨t', _, _⟩ ⟨ht, rfl, rfl⟩
  exact ⟨rfl, ht, rfl, rfl⟩

theorem withAuth_simulates {x : Exec Error (Env τ) α} {y : Exec Error (Env τ') α}
    (h : Simulates (Env.Alike R) x y) (auth : Auth) :
    Simulates (Env.Alike R) (Env.withAuth auth x) (Env.withAuth auth y) := by
  intro env env' henv
  obtain ⟨o, s, s', hx, hy, hs⟩ := h.cases
    (⟨henv.transport, rfl, henv.os⟩ :
      Env.Alike R { env with auth := auth } { env' with auth := auth })
  rw [Env.withAuth_apply, Env.withAuth_apply, hx, hy]
  exact ⟨rfl, hs.transport, henv.auth, hs.os⟩

variable {P : Purecrypto}

theorem session_new_simulates (handle : Handle) (hashAlg : Alg) (nonceTpm nonceCaller : Bytes)
    (attributes : SessionAttributes) :
    Simulates (Env.Alike R)
      (Session.new P handle hashAlg nonceTpm nonceCaller attributes [] [] [])
      (Session.new P handle hashAlg nonceTpm nonceCaller attributes [] [] []) :=
  (Simulates.ofExcept _).bind fun size => by
    rw [if_pos (by simp), if_pos (by simp)]
    exact (Simulates.pure []).bind fun _ => .pure _

variable [Transport τ] [Transport τ']

theorem transmit_simulates (hR : Interchangeable R) {frame : Bytes} (hframe : FrameFits frame) :
    Simulates R (transmit frame) (transmit frame) := by
  intro t t' ht
  obtain ⟨ho, hs⟩ := hR frame t t' hframe ht
  rw [transmit_eq, transmit_eq, ho]
  exact Simulates.ofExcept _ _ _ hs

/-- A command whose frames fit runs alike over both transports. -/
theorem run_simulates (hR : Interchangeable R) {handles : List Handle} {params : Bytes}
    (hparams : 4 * handles.length + params.length < 4294836203) (code : UInt32)
    (names : List Bytes) (n : ℕ) :
    Simulates (Env.Alike R) (run P code handles names params n)
      (run P code handles names params n) := by
  refine (onCaller_simulates _).bind_of fun frame hframe => ?_
  obtain ⟨env, henv⟩ := hframe
  have hfits : FrameFits frame := requestFrame_fits hparams henv
  refine Simulates.retry ?_ resubmits maxTransientRetries
  exact (onTransport_simulates (transmit_simulates hR hfits)).bind fun resp =>
    (onAuth_simulates _).reify

theorem runBare_simulates (hR : Interchangeable R) {p : Bytes} (hp : p.length < 4294836203)
    (code : UInt32) :
    Simulates (Env.Alike R) (runBare P code p) (runBare P code p) :=
  withAuth_simulates (run_simulates hR (by rw [List.length_nil]; omega) code [] 0) .none

end Alike

/-! ### Methods -/

section Methods

variable {τ τ' : Type} [Transport τ] [Transport τ'] {R : τ → τ' → Prop} {P : Purecrypto}

theorem createParams_fit (handle : Handle) (sensitive : SensitiveCreate) (public_ : Public) :
    4 * [handle].length + (createParams sensitive public_).length < 4294836203 := by
  have hlen := length_createParams_le sensitive public_
  simp only [List.length_singleton]
  omega

/-- A command of which nothing is read. -/
theorem runBare_unit_simulates (hR : Interchangeable R) {p : Bytes}
    (hp : p.length < 4294836203) (code : UInt32) :
    Simulates (Env.Alike R) (do let _ ← runBare P code p; pure ())
      (do let _ ← runBare P code p; pure ()) :=
  (runBare_simulates hR hp code).bind fun _ => .pure ()

theorem pcrRead_simulates (hR : Interchangeable R) {selection : PcrSelectionList}
    (h : (toBytes selection).length < 2147483648) :
    Simulates (Env.Alike R) (pcrRead P selection) (pcrRead P selection) :=
  (runBare_simulates hR (by show (toBytes selection).length < _; omega) cc.pcrRead).bind
    fun _ => .alone _ _

theorem length_singleMap_le (pcr : UInt8) : (singleMap pcr).length ≤ 34 := by
  have hlt := pcr.toNat_lt
  have hdiv : (pcr / 8).toNat = pcr.toNat / 8 := UInt8.toNat_div pcr 8
  simp only [singleMap, List.length_append, List.length_replicate, List.length_singleton, hdiv]
  omega

theorem single_fits (bank : Alg) (pcr : UInt8) :
    (toBytes ({ list := [⟨bank, singleMap pcr⟩] } : PcrSelectionList)).length < 2147483648 := by
  have hmap := length_singleMap_le pcr
  rw [PcrSelectionList.toBytes_eq, List.map_singleton, List.flatten_singleton,
    PcrSelection.toBytes_eq]
  simp only [List.length_append, length_toBeBytes, size_uint32, size_uint16, size_uint8]
  omega

theorem pcrReadOne_simulates (hR : Interchangeable R) (bank : Alg) (pcr : UInt8) :
    Simulates (Env.Alike R) (pcrReadOne P bank pcr) (pcrReadOne P bank pcr) := by
  have hsingle : ∀ {σ : Type} (s : σ), (PcrSelection.single bank pcr : Exec Error σ _) s =
      (.ok ⟨bank, singleMap pcr⟩, s) := PcrSelection.single_eq bank pcr
  refine Simulates.bind_of (fun env env' henv => ?_) fun single hok => ?_
  · rw [hsingle, hsingle]
    exact ⟨rfl, henv⟩
  · obtain ⟨env, henv⟩ := hok
    rw [hsingle] at henv
    obtain rfl := Outcome.ok.inj henv
    exact (pcrRead_simulates hR (single_fits bank pcr)).bind fun res => .pure _

/-- What is returned by an append fits a length prefix. -/
theorem appendTpm2b_length {σ : Type} {data p p' : Bytes} {s : σ}
    (h : ((appendTpm2b data p : Exec Error σ Bytes) s).1 = .ok p') :
    p'.length ≤ p.length + 65537 := by
  rcases Nat.lt_or_ge data.length 65536 with hlt | hge
  · rw [appendTpm2b_of_lt hlt] at h
    obtain rfl := Outcome.ok.inj h
    rw [List.length_append, length_tpm2bBytes]
    omega
  · rw [appendTpm2b_of_ge hge] at h
    simp at h

theorem startAuthSession_simulates (hR : Interchangeable R) (hashAlg : Alg)
    (nonceCaller : Bytes) :
    Simulates (Env.Alike R) (startAuthSession P hashAlg nonceCaller)
      (startAuthSession P hashAlg nonceCaller) := by
  refine Simulates.bind_of ?_ fun p hok => ?_
  · exact (Simulates.alone _ _).bind fun p => (Simulates.alone _ _).bind fun p => .pure _
  · have hp : p.length < 4294836195 := by
      obtain ⟨env, henv⟩ := hok
      rcases Nat.lt_or_ge nonceCaller.length 65536 with hlt | hge
      · rw [startAuthSessionParams_of_lt hashAlg hlt] at henv
        obtain rfl := Outcome.ok.inj henv
        have hnull : (toBytes SymDefObject.null).length = 2 := rfl
        rw [marshal_eq, marshal_eq, toBytes_alg]
        simp only [List.length_append, length_toBeBytes, length_tpm2bBytes, size_uint16, hnull,
          List.length_singleton, List.length_nil]
        omega
      · simp [startAuthSessionParams_of_ge hashAlg hge] at henv
    refine (withAuth_simulates (run_simulates hR ?_ _ _ 1) .none).bind fun resp => ?_
    · show 4 * 2 + p.length < 4294836203
      omega
    · exact (Simulates.index _ _).bind fun handle => (Simulates.alone _ _).bind
        fun nonceTpm => session_new_simulates handle hashAlg nonceTpm nonceCaller _

theorem loadParams_fit (handle : Handle) (inPrivate inPublic : Buffer) :
    4 * [handle].length + (marshal inPublic (marshal inPrivate [])).length < 4294836203 := by
  have hprivate := length_marshalTpm2bOk_le inPrivate.bytes
  have hpublic := length_marshalTpm2bOk_le inPublic.bytes
  rw [marshal_eq, marshal_eq, List.nil_append, toBytes_buffer, toBytes_buffer,
    List.length_append, List.length_singleton]
  omega

/-- A method that sends no frame beyond the size field behaves alike over
transports that cannot be told apart. -/
theorem Method.invoke_simulates (hR : Interchangeable R) {m : Method} (h : m.Short) :
    Simulates (Env.Alike R) (m.invoke P) (m.invoke P) := by
  cases m with
  | startup startupType => exact runBare_unit_simulates hR (by simp [marshal_eq]) _
  | shutdown shutdownType => exact runBare_unit_simulates hR (by simp [marshal_eq]) _
  | selfTest full => exact runBare_unit_simulates hR (by simp) _
  | getRandom bytes =>
      exact (runBare_simulates hR (by simp [marshal_eq]) _).bind fun resp => .alone _ _
  | stirRandom data =>
      refine (Simulates.throw _).ite ?_
      refine Simulates.bind_of (.alone _ _) fun p hok => ?_
      obtain ⟨env, henv⟩ := hok
      have hp := appendTpm2b_length henv
      exact runBare_unit_simulates hR (by rw [List.length_nil] at hp; omega) _
  | getCapability capability property count =>
      exact (runBare_simulates hR (by simp [marshal_eq]) _).bind fun resp => .alone _ _
  | pcrRead selection => exact pcrRead_simulates hR h
  | pcrReadOne bank pcr => exact pcrReadOne_simulates hR bank pcr
  | pcrExtend pcr digests =>
      have hparams : 4 * [Handle.mk pcr].length + (extendParams digests).length < 4294836203 := by
        have hshort : (extendParams digests).length < 2147483648 := h
        rw [List.length_singleton]
        omega
      exact (run_simulates hR hparams _ _ 0).bind fun resp => .pure ()
  | startAuthSession hashAlg nonceCaller => exact startAuthSession_simulates hR hashAlg nonceCaller
  | startHmacSession hashAlg =>
      exact (Simulates.ofExcept _).bind fun n => (onCaller_simulates _).bind fun nonce =>
        startAuthSession_simulates hR hashAlg nonce
  | flushContext handle => exact runBare_unit_simulates hR (by simp [marshal_eq]) _
  | createPrimary hierarchy sensitive public_ =>
      exact (run_simulates hR (createParams_fit _ sensitive public_) _ _ 1).bind fun resp =>
        (Simulates.index _ _).bind fun handle => .alone _ _
  | create parent parentName sensitive public_ =>
      exact (run_simulates hR (createParams_fit _ sensitive public_) _ _ 0).bind
        fun resp => .alone _ _
  | load parent parentName inPrivate inPublic =>
      exact (run_simulates hR (loadParams_fit _ inPrivate inPublic) _ _ 1).bind fun resp =>
        (Simulates.index _ _).bind fun handle => .alone _ _
  | unseal_ item itemName =>
      exact (run_simulates hR (by simp) _ _ 0).bind fun resp => .alone _ _

theorem Host.run_simulates {α : Type} (hR : Interchangeable R) {program : Host α}
    (h : program.Short) : Simulates (Env.Alike R) (program.run P) (program.run P) := by
  induction program with
  | done a => exact .pure a
  | call m next ih =>
      exact (Method.invoke_simulates hR h.1).reify.bind fun o => ih o (h.2 o)
  | swapAuth auth next ih =>
      rintro ⟨t, auth', os⟩ ⟨t', _, _⟩ ⟨ht, rfl, rfl⟩
      exact ih auth' (h auth') _ _ ⟨ht, rfl, rfl⟩

end Methods

/-- No program tells two transports apart whose transmissions cannot be told
apart: it returns the same, and leaves the same authorization and generator. -/
theorem transport_agnostic {τ τ' α : Type} [Transport τ] [Transport τ'] {R : τ → τ' → Prop}
    (P : Purecrypto) (hR : Interchangeable R) (program : Host α) (h : program.Short)
    (env : Env τ) (env' : Env τ') (henv : Env.Alike R env env') :
    (program.run P env).1 = (program.run P env').1 ∧
      Env.Alike R (program.run P env).2 (program.run P env').2 :=
  Host.run_simulates hR h env env' henv

/-! ### Borrowed transports -/

/-- `&mut T`, with the transport it refers to. -/
structure Borrowed (τ : Type) where
  referent : τ

instance {τ : Type} [Transport τ] : Transport (Borrowed τ) where
  transmit command self :=
    ((Transport.transmit command self.referent).1, ⟨(Transport.transmit command self.referent).2⟩)

theorem borrowed_interchangeable (τ : Type) [Transport τ] :
    Interchangeable fun (b : Borrowed τ) (t : τ) => b.referent = t := by
  rintro frame ⟨t⟩ _ - rfl
  exact ⟨rfl, rfl⟩

/-- Draw random bytes and unseal an object under them as the password. -/
def unsealUnderRandom : Host (Outcome Error Bytes) :=
  .call (.getRandom 16) fun drawn =>
    match drawn with
    | .ok pw => .swapAuth (.password pw) fun _ =>
        .call (.unseal_ ⟨0x80000000⟩ [0x80, 0, 0, 0]) .done
    | o => .done o

theorem transport_agnostic_unsealUnderRandom :
    (unsealUnderRandom.run (.ofValues [] []) ⟨⟨passwordLine⟩, .none, ⟨fun _ => 0⟩⟩ :
        Outcome Error (Outcome Error Bytes) × Env (Borrowed Line)).1 =
      (unsealUnderRandom.run (.ofValues [] []) ⟨passwordLine, .none, ⟨fun _ => 0⟩⟩).1 := by
  refine (transport_agnostic (.ofValues [] []) (borrowed_interchangeable Line) unsealUnderRandom
    ⟨trivial, fun o => ?_⟩ _ _ ⟨rfl, rfl, rfl⟩).1
  cases o with
  | ok pw => exact fun _ => ⟨trivial, fun _ => trivial⟩
  | err e => trivial
  | panic => trivial

end PurecryptoTpm
