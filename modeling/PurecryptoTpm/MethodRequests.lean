import PurecryptoTpm.Host

/-!
The methods, taken apart. A method that starts no session asks the dispatcher
for one command at most, and reads what it returns off the response to it. The
request and the reading do not depend on the transport, the authorization or
the generator, so that whatever is known of `run` is known of the methods.
-/

namespace PurecryptoTpm

/-- The methods that start no session. -/
def Method.Plain : Method → Prop
  | startAuthSession _ _ => False
  | startHmacSession _ => False
  | _ => True

/-- What a method asks the dispatcher for. -/
structure Request where
  code : UInt32
  handles : List Handle
  names : List Bytes
  params : Bytes
  respHandles : ℕ
  /-- Whether the caller's authorization goes with it. -/
  authorized : Bool

namespace Request

/-- A command without handles and without authorization. -/
def bare (code : UInt32) (params : Bytes) : Request where
  code := code
  handles := []
  names := []
  params := params
  respHandles := 0
  authorized := false

/-- A command on one handle, which is authorized. -/
def on (code : UInt32) (handle : Handle) (name params : Bytes) (respHandles : ℕ) : Request where
  code := code
  handles := [handle]
  names := [name]
  params := params
  respHandles := respHandles
  authorized := true

def run {τ : Type} [Transport τ] (P : Purecrypto) (q : Request) :
    Exec Error (Env τ) RawResponse :=
  if q.authorized then PurecryptoTpm.run P q.code q.handles q.names q.params q.respHandles
  else Env.withAuth .none (PurecryptoTpm.run P q.code q.handles q.names q.params q.respHandles)

end Request

namespace Method

/-- The request of a method, or the error it refuses its arguments with. -/
def request : (m : Method) → m.Plain → Except Error Request
  | startup startupType, _ => .ok (.bare cc.startup (marshal startupType []))
  | shutdown shutdownType, _ => .ok (.bare cc.shutdown (marshal shutdownType []))
  | selfTest full, _ => .ok (.bare cc.selfTest [if full then 1 else 0])
  | getRandom bytes, _ => .ok (.bare cc.getRandom (marshal bytes []))
  | stirRandom data, _ =>
      if data.length > 128 then .error (.usage "StirRandom accepts at most 128 bytes")
      else .ok (.bare cc.stirRandom (tpm2bBytes data))
  | getCapability capability property count, _ =>
      .ok (.bare cc.getCapability (marshal count (marshal property (marshal capability []))))
  | pcrRead selection, _ => .ok (.bare cc.pcrRead (marshal selection []))
  | pcrReadOne bank pcr, _ =>
      .ok (.bare cc.pcrRead
        (marshal ({ list := [⟨bank, singleMap pcr⟩] } : PcrSelectionList) []))
  | pcrExtend pcr digests, _ =>
      .ok (.on cc.pcrExtend ⟨pcr⟩ (permanentName ⟨pcr⟩) (extendParams digests) 0)
  | startAuthSession _ _, h => h.elim
  | startHmacSession _, h => h.elim
  | flushContext handle, _ => .ok (.bare cc.flushContext (marshal handle []))
  | createPrimary hierarchy sensitive public_, _ =>
      .ok (.on cc.createPrimary hierarchy (permanentName hierarchy)
        (createParams sensitive public_) 1)
  | create parent parentName sensitive public_, _ =>
      .ok (.on cc.create parent parentName (createParams sensitive public_) 0)
  | load parent parentName inPrivate inPublic, _ =>
      .ok (.on cc.load parent parentName (marshal inPublic (marshal inPrivate [])) 1)
  | unseal_ item itemName, _ => .ok (.on cc.unseal item itemName [] 0)

/-- What a method makes of the response. -/
def read {σ : Type} : (m : Method) → m.Plain → RawResponse → Exec Error σ m.Result
  | startup _, _, _ => pure ()
  | shutdown _, _, _ => pure ()
  | selfTest _, _, _ => pure ()
  | getRandom _, _, resp => Exec.alone (Reader.new resp.params) Reader.tpm2b
  | stirRandom _, _, _ => pure ()
  | getCapability _ _ _, _, resp =>
      Exec.alone (Reader.new resp.params) do
        let more ← Reader.u8
        let cap ← Reader.u32
        let data ← Reader.takeRemaining
        pure { more := more != 0, capability := cap, data := data }
  | pcrRead _, _, resp => Exec.alone (Reader.new resp.params) readPcrValues
  | pcrReadOne _ _, _, resp => do
      let res ← Exec.alone (Reader.new resp.params) readPcrValues
      pure res.values.head?
  | pcrExtend _ _, _, _ => pure ()
  | startAuthSession _ _, h, _ => h.elim
  | startHmacSession _, h, _ => h.elim
  | flushContext _, _, _ => pure ()
  | createPrimary _ _ _, _, resp => do
      let handle ← Exec.index resp.handles 0
      Exec.alone (Reader.new resp.params) (readPrimary handle)
  | create _ _ _ _, _, resp =>
      Exec.alone (Reader.new resp.params) do
        let outPrivate ← Reader.tpm2b
        let outPublic ← Reader.tpm2b
        pure { private_ := ⟨outPrivate⟩, public_ := ⟨outPublic⟩ }
  | load _ _ _ _, _, resp => do
      let handle ← Exec.index resp.handles 0
      Exec.alone (Reader.new resp.params) do
        let name ← Reader.tpm2b
        pure { handle := handle, name := ⟨name⟩ }
  | unseal_ _ _, _, resp => Exec.alone (Reader.new resp.params) Reader.tpm2b

/-- The reading on its own: it touches no place. -/
def outcome (m : Method) (h : m.Plain) (resp : RawResponse) : Outcome Error m.Result :=
  ((m.read h resp : Exec Error Unit m.Result) ()).1

theorem head_read {σ α : Type} (handles : List Handle) (params : Bytes)
    (p : Handle → Exec Error Reader α) (s : σ) :
    (Exec.index handles 0 >>= fun handle => Exec.alone (Reader.new params) (p handle)) s =
      (((Exec.index handles 0 >>= fun handle =>
        Exec.alone (Reader.new params) (p handle) : Exec Error Unit α) ()).1, s) := by
  cases handles with
  | nil => rfl
  | cons handle handles => rfl

/-- A reading on its own, of which something is picked. -/
theorem alone_pick {σ α β : Type} (r : Reader) (p : Exec Error Reader α) (f : α → β) (s : σ) :
    (Exec.alone r p >>= fun a => pure (f a)) s =
      (((Exec.alone r p >>= fun a => pure (f a) : Exec Error Unit β) ()).1, s) := by
  have hσ : (Exec.alone r p : Exec Error σ α) s = ((p r).1, s) := rfl
  have hunit : (Exec.alone r p : Exec Error Unit α) () = ((p r).1, ()) := rfl
  cases ho : (p r).1 with
  | ok a => rw [Exec.bind_ok (ho ▸ hσ), Exec.bind_ok (ho ▸ hunit), Exec.pure_apply, Exec.pure_apply]
  | err e => rw [Exec.bind_err (ho ▸ hσ), Exec.bind_err (ho ▸ hunit)]
  | panic => rw [Exec.bind_panic (ho ▸ hσ), Exec.bind_panic (ho ▸ hunit)]

theorem read_apply {σ : Type} (m : Method) (h : m.Plain) (resp : RawResponse) (s : σ) :
    m.read h resp s = (m.outcome h resp, s) := by
  cases m with
  | startAuthSession hashAlg nonceCaller => exact h.elim
  | startHmacSession hashAlg => exact h.elim
  | createPrimary hierarchy sensitive public_ => exact head_read _ _ _ s
  | load parent parentName inPrivate inPublic => exact head_read _ _ _ s
  | pcrReadOne bank pcr => exact alone_pick _ _ _ s
  | _ => rfl

section Invoke

variable {τ : Type} [Transport τ] {P : Purecrypto}

/-- A method asks and reads. -/
theorem invoke_eq (m : Method) (h : m.Plain) :
    (m.invoke P : Exec Error (Env τ) m.Result) =
      Exec.ofExcept (m.request h) >>= fun q => q.run P >>= m.read h := by
  ext env : 1
  cases m with
  | startAuthSession hashAlg nonceCaller => exact h.elim
  | startHmacSession hashAlg => exact h.elim
  | stirRandom data =>
      show PurecryptoTpm.stirRandom P data env = _
      rw [PurecryptoTpm.stirRandom, request]
      split
      · rfl
      · case isFalse hlen =>
          have hlt : data.length < 65536 := by omega
          rw [Exec.bind_ok (appendTpm2b_of_lt hlt [] env)]
          rfl
  | pcrReadOne bank pcr =>
      show PurecryptoTpm.pcrReadOne P bank pcr env = _
      have hread : (PurecryptoTpm.pcrRead P { list := [⟨bank, singleMap pcr⟩] } :
          Exec Error (Env τ) PcrReadResult) =
          Request.run P (.bare cc.pcrRead
            (marshal ({ list := [⟨bank, singleMap pcr⟩] } : PcrSelectionList) [])) >>=
              fun resp => Exec.alone (Reader.new resp.params) readPcrValues := rfl
      rw [PurecryptoTpm.pcrReadOne, Exec.bind_ok (PcrSelection.single_eq bank pcr env), hread,
        Exec.bind_assoc]
      rfl
  | _ => rfl

end Invoke

end Method

/-! ### What requests look like -/

/-- How many handles stand in a command. -/
def commandHandles (code : UInt32) : ℕ :=
  if code = cc.startAuthSession then 2
  else if code = cc.createPrimary ∨ code = cc.create ∨ code = cc.load ∨ code = cc.unseal ∨
      code = cc.pcrExtend then 1
  else 0

/-- How many handles stand in the response to a command. -/
def responseHandles (code : UInt32) : ℕ :=
  if code = cc.startAuthSession ∨ code = cc.createPrimary ∨ code = cc.load then 1 else 0

namespace Request

/-- The handles are as many as the command has, the response has as many as
were asked for, and the frame cannot grow beyond the size field. -/
structure Fits (q : Request) : Prop where
  handles : q.handles.length = commandHandles q.code
  respHandles : q.respHandles = responseHandles q.code
  plain : q.code ≠ cc.startAuthSession
  length : 4 * q.handles.length + q.params.length < 4294836203

theorem Fits.respHandles_le {q : Request} (h : q.Fits) : q.respHandles ≤ 1 := by
  rw [h.respHandles, responseHandles]
  split <;> omega

theorem bare_fits {code : UInt32} {params : Bytes} (hcommand : commandHandles code = 0)
    (hresponse : responseHandles code = 0) (hlen : params.length < 4294836203) :
    (bare code params).Fits where
  handles := hcommand.symm
  respHandles := hresponse.symm
  plain := by
    rintro rfl
    simp [commandHandles] at hcommand
  length := by
    show 4 * 0 + params.length < _
    omega

theorem on_fits {code : UInt32} {handle : Handle} {name params : Bytes} {n : ℕ}
    (hcommand : commandHandles code = 1) (hresponse : responseHandles code = n)
    (hlen : 4 * [handle].length + params.length < 4294836203) :
    (on code handle name params n).Fits where
  handles := hcommand.symm
  respHandles := hresponse.symm
  plain := by
    rintro rfl
    simp [commandHandles] at hcommand
  length := hlen

end Request

/-- A method's request has the handles its command calls for, and fits a frame. -/
theorem Method.request_fits {m : Method} (h : m.Plain) (hshort : m.Short) {q : Request}
    (hq : m.request h = .ok q) : q.Fits := by
  cases m with
  | startAuthSession hashAlg nonceCaller => exact h.elim
  | startHmacSession hashAlg => exact h.elim
  | startup startupType =>
      obtain rfl := Except.ok.inj hq
      exact Request.bare_fits rfl rfl (by simp [marshal_eq])
  | shutdown shutdownType =>
      obtain rfl := Except.ok.inj hq
      exact Request.bare_fits rfl rfl (by simp [marshal_eq])
  | selfTest full =>
      obtain rfl := Except.ok.inj hq
      exact Request.bare_fits rfl rfl (by simp)
  | getRandom bytes =>
      obtain rfl := Except.ok.inj hq
      exact Request.bare_fits rfl rfl (by simp [marshal_eq])
  | stirRandom data =>
      rw [request] at hq
      split at hq
      · simp at hq
      · obtain rfl := Except.ok.inj hq
        refine Request.bare_fits rfl rfl ?_
        rw [length_tpm2bBytes]
        omega
  | getCapability capability property count =>
      obtain rfl := Except.ok.inj hq
      exact Request.bare_fits rfl rfl (by simp [marshal_eq])
  | pcrRead selection =>
      obtain rfl := Except.ok.inj hq
      have hlen : (toBytes selection).length < 2147483648 := hshort
      exact Request.bare_fits rfl rfl (by show (toBytes selection).length < _; omega)
  | pcrReadOne bank pcr =>
      obtain rfl := Except.ok.inj hq
      have hlen := single_fits bank pcr
      exact Request.bare_fits rfl rfl (Nat.lt_trans hlen (by decide))
  | pcrExtend pcr digests =>
      obtain rfl := Except.ok.inj hq
      have hlen : (extendParams digests).length < 2147483648 := hshort
      refine Request.on_fits rfl rfl ?_
      rw [List.length_singleton]
      omega
  | flushContext handle =>
      obtain rfl := Except.ok.inj hq
      exact Request.bare_fits rfl rfl (by simp [marshal_eq])
  | createPrimary hierarchy sensitive public_ =>
      obtain rfl := Except.ok.inj hq
      exact Request.on_fits rfl rfl (createParams_fit _ sensitive public_)
  | create parent parentName sensitive public_ =>
      obtain rfl := Except.ok.inj hq
      exact Request.on_fits rfl rfl (createParams_fit _ sensitive public_)
  | load parent parentName inPrivate inPublic =>
      obtain rfl := Except.ok.inj hq
      exact Request.on_fits rfl rfl (loadParams_fit _ inPrivate inPublic)
  | unseal_ item itemName =>
      obtain rfl := Except.ok.inj hq
      exact Request.on_fits rfl rfl (by simp)

end PurecryptoTpm
