import PurecryptoTpm.Commands.Object
import PurecryptoTpm.Framing

/-!
The parameter areas of the object commands. A field that does not fit its
UINT16 length is dropped without a word, here and in the structures around it,
so `create`, `create_primary` and `load` send areas with a field missing
exactly if some field does not fit. What `create` returns always fits, and
`load` sends it back byte for byte.
-/

namespace PurecryptoTpm

/-! ### Lengths of request bodies -/

section Length

variable {P : Purecrypto} {code : UInt32} {handles : List Handle} {names : List Bytes}
  {params : Bytes} {auth : Auth} {os : OsRng}

theorem length_commandBody_le {entry : AuthCommand} (hnonce : entry.nonceCaller.length < 65536)
    (hhmac : entry.hmac.length < 65536) : (commandBody handles (some entry) params).length ≤
      4 * handles.length + params.length + 131083 := by
  simp only [commandBody, commandEntry, List.length_append, length_handleArea, length_toBeBytes,
    length_tpm2bBytes, size_uint32, List.length_singleton]
  omega

/-- Everything but the handles and the parameters is of bounded size. -/
theorem length_requestBody_le {body : Bytes} {places : Auth × OsRng}
    (h : requestBody P code handles names params (auth, os) = (.ok body, places)) :
    body.length ≤ 4 * handles.length + params.length + 131083 := by
  cases auth with
  | none =>
      rw [requestBody_none] at h
      obtain rfl := Outcome.ok.inj (Prod.mk.inj h).1
      rw [commandBody, List.length_append, length_handleArea]
      omega
  | password pw =>
      rcases Nat.lt_or_ge pw.length 65536 with hpw | hpw
      · rw [requestBody_of_area rfl (authorizationArea_password hpw)] at h
        obtain rfl := Outcome.ok.inj (Prod.mk.inj h).1
        exact length_commandBody_le (Nat.zero_lt_succ _) hpw
      · rw [requestBody_of_area_err rfl (authorizationArea_password_long hpw)] at h
        simp at h
  | session s authValue =>
      cases hd : Digest.ofAlg s.hashAlg with
      | none =>
          rw [requestBody_of_area_err rfl (authorizationArea_unsupported hd)] at h
          simp at h
      | some d =>
          rw [requestBody_of_area rfl (authorizationArea_session hd)] at h
          obtain rfl := Outcome.ok.inj (Prod.mk.inj h).1
          refine length_commandBody_le ?_ ?_
          · rw [sessionEntry, OsRng.length_drawn]
            exact d.size_lt
          · rw [sessionEntry, commandHmac, P.length_hmac]
            exact d.size_lt

end Length

/-! ### Methods around one command -/

/-- Every frame of a method carries the parameter area; and there is one, if
the authorization lets any be built. -/
def Sends {α : Type} (m : Exec Error (Env Line) α) (env : Env Line) (params : Bytes) : Prop :=
  ∃ frames, (env.auth.Buildable → frames ≠ []) ∧
    (m env).2.transport.sent = env.transport.sent ++ frames ∧
    ∀ frame ∈ frames, ∃ cmd, decodeCommand (fun _ => 1) frame = some cmd ∧ cmd.params = params

/-- The frames of a method each carry a parameter area that `reads` well, and
if the fields do not fit it fails with nothing sent. -/
def KeepsFields {α : Type} (m : Exec Error (Env Line) α) (env : Env Line) (reads : Bytes → Prop)
    (fits : Prop) : Prop :=
  (∃ frames, (m env).2.transport.sent = env.transport.sent ++ frames ∧ ∀ frame ∈ frames,
    ∃ cmd, decodeCommand (fun _ => 1) frame = some cmd ∧ reads cmd.params) ∧
  (¬ fits → (∃ e, (m env).1 = .err e) ∧ (m env).2.transport.sent = env.transport.sent)

section Method

variable {P : Purecrypto} {code : UInt32} {handle : Handle} {name params : Bytes} {n : ℕ}
  {α : Type} {k : RawResponse → Exec Error (Env Line) α} {env : Env Line}

/-- Nothing is sent if the authorization cannot be built. -/
theorem method_of_not_buildable (hbuildable : ¬ env.auth.Buildable) :
    ∃ e, (run P code [handle] [name] params n >>= k) env = (.err e, env) := by
  obtain ⟨line, auth, os⟩ := env
  obtain ⟨e, hrun⟩ := @run_of_not_buildable P code [handle] [name] params auth hbuildable n line os
  exact ⟨e, Exec.bind_err hrun⟩

/-- A method that runs one command on one handle, and touches nothing after
it, sends frames with exactly its parameter area. -/
theorem sends_of_method (hk : ∀ raw env, (k raw env).2 = env)
    (hparams : params.length ≤ 131080) :
    Sends (run P code [handle] [name] params n >>= k) env params := by
  by_cases hbuildable : env.auth.Buildable
  · obtain ⟨line, auth, os⟩ := env
    -- the authorization adds at most two sized fields, so the size field does not wrap
    have hbody : ∀ body places, requestBody P code [handle] [name] params (auth, os) =
        (.ok body, places) → body.length < 4294967286 := by
      intro body places h
      have hlen := length_requestBody_le h
      simp only [List.length_singleton] at hlen
      omega
    obtain ⟨frames, hne, hsent, hreads⟩ := @run_of_buildable P code [handle] [name] params
      (fun _ => 1) auth hbuildable n line os rfl hbody
    refine ⟨frames, fun _ => hne, ?_, fun frame hframe => ?_⟩
    · rw [Exec.bind_snd hk, hsent]
    · obtain ⟨cmd, hcmd, -, -, -, -, -, hparams⟩ := hreads frame hframe
      exact ⟨cmd, hcmd, hparams⟩
  · obtain ⟨e, herr⟩ := @method_of_not_buildable P code handle name params n α k env hbuildable
    refine ⟨[], fun h => absurd h hbuildable, ?_, by simp⟩
    rw [herr, List.append_nil]

/-- Fields that fit are sent; fields that do not are sent all the same, if
anything can be. -/
theorem keepsFields_iff {reads : Bytes → Prop} {fits : Prop} (hk : ∀ raw env, (k raw env).2 = env)
    (hparams : params.length ≤ 131080) (hreads : fits → reads params) :
    KeepsFields (run P code [handle] [name] params n >>= k) env reads fits ↔
      fits ∨ ¬ env.auth.Buildable := by
  obtain ⟨frames, hne, hsent, hframes⟩ :=
    @sends_of_method P code handle name params n α k env hk hparams
  constructor
  · -- fields that do not fit are not refused: a frame is on the line
    rintro ⟨-, hrefuses⟩
    by_contra h
    rw [not_or, not_not] at h
    rw [(hrefuses h.1).2] at hsent
    exact hne h.2 (by simpa using hsent)
  · rintro (hfits | hbuildable)
    · refine ⟨⟨frames, hsent, fun frame hframe => ?_⟩, fun hnot => absurd hfits hnot⟩
      obtain ⟨cmd, hcmd, heq⟩ := hframes frame hframe
      exact ⟨cmd, hcmd, heq ▸ hreads hfits⟩
    · obtain ⟨e, herr⟩ := @method_of_not_buildable P code handle name params n α k env hbuildable
      rw [KeepsFields, herr]
      exact ⟨⟨[], (List.append_nil _).symm, by simp⟩, fun _ => ⟨⟨e, rfl⟩, rfl⟩⟩

end Method

/-! ### The parameter areas -/

/-- The encoding of the sensitive half. -/
def SensitiveCreate.encoding (s : SensitiveCreate) : Bytes :=
  tpm2bBytes s.userAuth.bytes ++ tpm2bBytes s.data.bytes

@[simp] theorem SensitiveCreate.length_encoding (s : SensitiveCreate) :
    s.encoding.length = 4 + s.userAuth.bytes.length + s.data.bytes.length := by
  rw [SensitiveCreate.encoding, List.length_append, length_tpm2bBytes, length_tpm2bBytes]
  omega

/-- Both fields, each behind its length, fit one more length; so each fits its own. -/
def SensitiveCreate.Fits (s : SensitiveCreate) : Prop :=
  4 + s.userAuth.bytes.length + s.data.bytes.length < 65536

def Buffer.Fits (b : Buffer) : Prop := b.bytes.length < 65536

def PublicId.Fits : PublicId → Prop
  | keyedHash d => d.Fits
  | ecc x y => x.Fits ∧ y.Fits

/-- The policy, the unique field and the whole of a public area fit. -/
def Public.Fits (p : Public) : Prop :=
  p.authPolicy.Fits ∧ p.unique.Fits ∧ (toBytes p).length < 65536

def readCreateParams : Exec Error Reader (Bytes × Bytes × Bytes × UInt32) := do
  let sensitive ← Reader.tpm2b
  let public_ ← Reader.tpm2b
  let outsideInfo ← Reader.tpm2b
  let pcrCount ← Reader.u32
  pure (sensitive, public_, outsideInfo, pcrCount)

def readLoadParams : Exec Error Reader (Bytes × Bytes) := do
  let inPrivate ← Reader.tpm2b
  let inPublic ← Reader.tpm2b
  pure (inPrivate, inPublic)

/-- The area is the four fields of a creation and nothing else. -/
def ReadsCreate (sensitive : SensitiveCreate) (public_ : Public) (params : Bytes) : Prop :=
  readWhole readCreateParams params = .ok (sensitive.encoding, toBytes public_, [], 0)

/-- The area is the two fields of a loading and nothing else. -/
def ReadsLoad (inPrivate inPublic : Buffer) (params : Bytes) : Prop :=
  readWhole readLoadParams params = .ok (inPrivate.bytes, inPublic.bytes)

theorem readCreateParams_parses : Parses Reader.between Malformed readCreateParams (fun a w =>
    a.1.length < 65536 ∧ a.2.1.length < 65536 ∧ a.2.2.1.length < 65536 ∧
      w = tpm2bBytes a.1 ++ tpm2bBytes a.2.1 ++ tpm2bBytes a.2.2.1 ++ toBeBytes a.2.2.2) := by
  refine (Reader.tpm2b_parses.bind fun a => Reader.tpm2b_parses.bind fun b =>
    Reader.tpm2b_parses.bind fun c => Reader.u32_parses.bind fun n =>
      Parses.pure (a, b, c, n)).congr fun a w => ?_
  constructor
  · rintro ⟨a, _, _, ⟨ha, rfl⟩, ⟨b, _, _, ⟨hb, rfl⟩, ⟨c, _, _, ⟨hc, rfl⟩,
      ⟨n, _, _, rfl, ⟨rfl, rfl⟩, rfl⟩, rfl⟩, rfl⟩, rfl⟩
    exact ⟨ha, hb, hc, by simp⟩
  · obtain ⟨a, b, c, n⟩ := a
    rintro ⟨ha, hb, hc, rfl⟩
    exact ⟨a, _, _, ⟨ha, rfl⟩, ⟨b, _, _, ⟨hb, rfl⟩, ⟨c, _, _, ⟨hc, rfl⟩,
      ⟨n, _, [], rfl, ⟨rfl, rfl⟩, rfl⟩, rfl⟩, rfl⟩, by simp⟩

theorem readLoadParams_parses : Parses Reader.between Malformed readLoadParams (fun a w =>
    a.1.length < 65536 ∧ a.2.length < 65536 ∧ w = tpm2bBytes a.1 ++ tpm2bBytes a.2) := by
  refine (Reader.tpm2b_parses.bind fun a => Reader.tpm2b_parses.bind fun b =>
    Parses.pure (a, b)).congr fun a w => ?_
  constructor
  · rintro ⟨a, _, _, ⟨ha, rfl⟩, ⟨b, _, _, ⟨hb, rfl⟩, ⟨rfl, rfl⟩, rfl⟩, rfl⟩
    exact ⟨ha, hb, by simp⟩
  · obtain ⟨a, b⟩ := a
    rintro ⟨ha, hb, rfl⟩
    exact ⟨a, _, _, ⟨ha, rfl⟩, ⟨b, _, [], ⟨hb, rfl⟩, ⟨rfl, rfl⟩, rfl⟩, by simp⟩

theorem SensitiveCreate.Fits.wrap2b_eq {s : SensitiveCreate} (h : s.Fits) (out : Bytes) :
    s.wrap2b out = out ++ tpm2bBytes s.encoding := by
  have huserAuth : s.userAuth.bytes.length < 65536 := by
    rw [SensitiveCreate.Fits] at h
    omega
  have hdata : s.data.bytes.length < 65536 := by
    rw [SensitiveCreate.Fits] at h
    omega
  have hinner : marshal s.data (marshal s.userAuth []) = s.encoding := by
    rw [marshal_eq, marshal_eq, toBytes_buffer, toBytes_buffer, marshalTpm2bOk_of_lt huserAuth,
      marshalTpm2bOk_of_lt hdata]
    rfl
  rw [SensitiveCreate.wrap2b, hinner, marshalTpm2bOk_of_lt (s.length_encoding ▸ h)]

/-- If everything fits, nothing is dropped. -/
theorem createParams_of_fits {sensitive : SensitiveCreate} {public_ : Public}
    (hsensitive : sensitive.Fits) (hpublic : public_.Fits) :
    createParams sensitive public_ = tpm2bBytes sensitive.encoding ++
      tpm2bBytes (toBytes public_) ++ tpm2bBytes [] ++ toBeBytes (0 : UInt32) := by
  have hempty : ([] : Bytes).length < 65536 := Nat.zero_lt_succ _
  simp only [createParams, hsensitive.wrap2b_eq, Public.wrap2b, marshalTpm2bOk_of_lt hpublic.2.2,
    marshalTpm2bOk_of_lt hempty, List.nil_append]
  rw [marshal_eq]
  rfl

theorem readsCreate_createParams {sensitive : SensitiveCreate} {public_ : Public}
    (hsensitive : sensitive.Fits) (hpublic : public_.Fits) :
    ReadsCreate sensitive public_ (createParams sensitive public_) := by
  rw [ReadsCreate, readWhole_ok_iff readCreateParams_parses]
  exact ⟨sensitive.length_encoding ▸ hsensitive, hpublic.2.2, Nat.zero_lt_succ _,
    createParams_of_fits hsensitive hpublic⟩

theorem length_createParams_le (sensitive : SensitiveCreate) (public_ : Public) :
    (createParams sensitive public_).length ≤ 131080 := by
  have hcount : ∀ out, marshal ({ list := [] } : PcrSelectionList) out =
      out ++ toBeBytes (0 : UInt32) := fun _ => rfl
  have hsensitive :=
    length_marshalTpm2bOk_le (marshal sensitive.data (marshal sensitive.userAuth []))
  have hpublic := length_marshalTpm2bOk_le (toBytes public_)
  have hempty : ([] : Bytes).length < 65536 := Nat.zero_lt_succ _
  rw [createParams, hcount, marshalTpm2bOk_of_lt hempty, Public.wrap2b, marshalTpm2bOk_append,
    SensitiveCreate.wrap2b]
  simp only [List.length_append, length_toBeBytes, length_tpm2bBytes, size_uint32,
    List.length_nil]
  omega

/-- The parameter area of a loading. -/
def loadParams (inPrivate inPublic : Buffer) : Bytes := marshal inPublic (marshal inPrivate [])

theorem loadParams_eq (inPrivate inPublic : Buffer) : loadParams inPrivate inPublic =
    marshalTpm2bOk inPrivate.bytes [] ++ marshalTpm2bOk inPublic.bytes [] := by
  rw [loadParams, marshal_eq, marshal_eq, toBytes_buffer, toBytes_buffer, List.nil_append]

theorem loadParams_of_fits {inPrivate inPublic : Buffer} (hprivate : inPrivate.Fits)
    (hpublic : inPublic.Fits) : loadParams inPrivate inPublic =
      tpm2bBytes inPrivate.bytes ++ tpm2bBytes inPublic.bytes := by
  rw [loadParams_eq, marshalTpm2bOk_of_lt hprivate, marshalTpm2bOk_of_lt hpublic,
    List.nil_append, List.nil_append]

theorem readsLoad_loadParams {inPrivate inPublic : Buffer} (hprivate : inPrivate.Fits)
    (hpublic : inPublic.Fits) :
    ReadsLoad inPrivate inPublic (loadParams inPrivate inPublic) := by
  rw [ReadsLoad, readWhole_ok_iff readLoadParams_parses]
  exact ⟨hprivate, hpublic, loadParams_of_fits hprivate hpublic⟩

theorem length_loadParams_le (inPrivate inPublic : Buffer) :
    (loadParams inPrivate inPublic).length ≤ 131080 := by
  have hprivate := length_marshalTpm2bOk_le inPrivate.bytes
  have hpublic := length_marshalTpm2bOk_le inPublic.bytes
  rw [loadParams_eq, List.length_append]
  omega

/-! ### What the methods send -/

section Methods

variable (P : Purecrypto) (env : Env Line)

theorem create_keepsFields_iff (parent : Handle) (parentName : Bytes)
    (sensitive : SensitiveCreate) (public_ : Public) :
    KeepsFields (create P parent parentName sensitive public_) env (ReadsCreate sensitive public_)
        (sensitive.Fits ∧ public_.Fits) ↔
      (sensitive.Fits ∧ public_.Fits) ∨ ¬ env.auth.Buildable := by
  refine keepsFields_iff (fun raw env => ?_) (length_createParams_le sensitive public_) ?_
  · rw [Exec.alone_apply]
  · rintro ⟨hsensitive, hpublic⟩
    exact readsCreate_createParams hsensitive hpublic

theorem createPrimary_keepsFields_iff (hierarchy : Handle) (sensitive : SensitiveCreate)
    (public_ : Public) :
    KeepsFields (createPrimary P hierarchy sensitive public_) env (ReadsCreate sensitive public_)
        (sensitive.Fits ∧ public_.Fits) ↔
      (sensitive.Fits ∧ public_.Fits) ∨ ¬ env.auth.Buildable := by
  refine keepsFields_iff (fun raw env => ?_) (length_createParams_le sensitive public_) ?_
  · apply Exec.index_bind_alone_snd
  · rintro ⟨hsensitive, hpublic⟩
    exact readsCreate_createParams hsensitive hpublic

theorem load_keepsFields_iff (parent : Handle) (parentName : Bytes)
    (inPrivate inPublic : Buffer) :
    KeepsFields (load P parent parentName inPrivate inPublic) env (ReadsLoad inPrivate inPublic)
        (inPrivate.Fits ∧ inPublic.Fits) ↔
      (inPrivate.Fits ∧ inPublic.Fits) ∨ ¬ env.auth.Buildable := by
  refine keepsFields_iff (fun raw env => ?_) (length_loadParams_le inPrivate inPublic) ?_
  · apply Exec.index_bind_alone_snd
  · rintro ⟨hprivate, hpublic⟩
    exact readsLoad_loadParams hprivate hpublic

theorem load_sends (parent : Handle) (parentName : Bytes) (inPrivate inPublic : Buffer) :
    Sends (load P parent parentName inPrivate inPublic) env (loadParams inPrivate inPublic) := by
  refine sends_of_method (fun raw env => ?_) (length_loadParams_le inPrivate inPublic)
  apply Exec.index_bind_alone_snd

end Methods

/-- The object commands keep all their fields, or refuse, exactly if the fields
fit; an authorization that cannot be built hides the fault, since nothing is
sent then. -/
theorem objectCommands_keepFields_iff (P : Purecrypto) (env : Env Line) :
    (∀ parent parentName sensitive public_,
      KeepsFields (create P parent parentName sensitive public_) env
          (ReadsCreate sensitive public_) (sensitive.Fits ∧ public_.Fits) ↔
        (sensitive.Fits ∧ public_.Fits) ∨ ¬ env.auth.Buildable) ∧
    (∀ hierarchy sensitive public_,
      KeepsFields (createPrimary P hierarchy sensitive public_) env
          (ReadsCreate sensitive public_) (sensitive.Fits ∧ public_.Fits) ↔
        (sensitive.Fits ∧ public_.Fits) ∨ ¬ env.auth.Buildable) ∧
    ∀ parent parentName inPrivate inPublic,
      KeepsFields (load P parent parentName inPrivate inPublic) env
          (ReadsLoad inPrivate inPublic) (inPrivate.Fits ∧ inPublic.Fits) ↔
        (inPrivate.Fits ∧ inPublic.Fits) ∨ ¬ env.auth.Buildable :=
  ⟨create_keepsFields_iff P env, createPrimary_keepsFields_iff P env, load_keepsFields_iff P env⟩

/-- Sealing under the storage root key, with its password. -/
def sealingEnv : Env Line := ⟨passwordLine, .password [0x70, 0x77], ⟨fun _ => 0⟩⟩

/-- Data that fits its own length, but not the one around it. -/
def sealedZeros : SensitiveCreate := ⟨⟨[]⟩, ⟨List.replicate 65532 0⟩⟩

/-- A blob one byte too long for its length. -/
def longBlob : Buffer := ⟨List.replicate 65536 0⟩

/-- The zeros are sealed without a sensitive area around them, and the blob is
loaded as no private area at all. -/
theorem objectCommands_drop_fields :
    ¬ KeepsFields (create (.ofValues [] []) ⟨0x80000000⟩ [0, 0xB] sealedZeros (.sealedData .sha256))
        sealingEnv (ReadsCreate sealedZeros (.sealedData .sha256))
        (sealedZeros.Fits ∧ (Public.sealedData .sha256).Fits) ∧
      ¬ KeepsFields (load (.ofValues [] []) ⟨0x80000000⟩ [0, 0xB] longBlob .empty)
        sealingEnv (ReadsLoad longBlob .empty) (longBlob.Fits ∧ Buffer.empty.Fits) := by
  have hbuildable : sealingEnv.auth.Buildable := by
    show 2 < 65536
    omega
  have hdata : sealedZeros.data.bytes.length = 65532 := List.length_replicate
  have hzeros : ¬ sealedZeros.Fits := by
    rw [SensitiveCreate.Fits, hdata]
    omega
  have hblob : longBlob.bytes.length = 65536 := List.length_replicate
  have hlong : ¬ longBlob.Fits := by
    rw [Buffer.Fits, hblob]
    omega
  constructor
  · intro h
    rcases (create_keepsFields_iff _ _ _ _ _ _).mp h with hfits | hnot
    · exact hzeros hfits.1
    · exact hnot hbuildable
  · intro h
    rcases (load_keepsFields_iff _ _ _ _ _ _).mp h with hfits | hnot
    · exact hlong hfits.1
    · exact hnot hbuildable

/-! ### From `create` to `load` -/

/-- What `create` returns are the first two fields of the parameters it reads. -/
theorem fields_of_create {P : Purecrypto} {parent : Handle} {parentName : Bytes}
    {sensitive : SensitiveCreate} {public_ : Public} {line : Line} {auth : Auth} {os : OsRng}
    {result : CreateResult}
    (h : (create P parent parentName sensitive public_ ⟨line, auth, os⟩).1 = .ok result) :
    ∃ i resp reply w₁ w₂ rest, StopsAt line.outcome i ∧ line.outcome i = .ok resp ∧
      Reading 0 resp reply ∧ reply.raw.params = w₁ ++ w₂ ++ rest ∧
      tpm2bFormat result.private_.bytes w₁ ∧ tpm2bFormat result.public_.bytes w₂ := by
  obtain ⟨raw, env, hrun, hread⟩ := Exec.bind_eq_ok.mp (Prod.ext h rfl)
  obtain ⟨i, resp, reply, hstops, hresp, hreading, rfl⟩ := reading_of_run_ok hrun
  -- whatever creation data stands behind them is left unread
  have hparses := Reader.tpm2b_parses.bind fun outPrivate => Reader.tpm2b_parses.bind
    fun outPublic => Parses.pure (CreateResult.mk ⟨outPrivate⟩ ⟨outPublic⟩)
  have hfields := (Reader.new_ok_iff hparses reply.raw.params result).mp (Prod.mk.inj hread).1
  obtain ⟨_, rest, ⟨outPrivate, w₁, _, hprivate, ⟨outPublic, w₂, _, hpublic, ⟨rfl, rfl⟩, rfl⟩,
    rfl⟩, hparams⟩ := hfields
  rw [List.append_nil] at hparams
  exact ⟨i, resp, reply, w₁, w₂, rest, hstops, hresp, hreading, hparams, hprivate, hpublic⟩

/-- The blobs of a created object are loaded under any parent with a parameter
area that is, byte for byte, the first two fields `create` was answered with. -/
theorem load_params_of_create (P : Purecrypto) (parent : Handle) (parentName : Bytes)
    (sensitive : SensitiveCreate) (public_ : Public) (line : Line) (auth : Auth) (os : OsRng)
    (result : CreateResult)
    (hcreate : (create P parent parentName sensitive public_ ⟨line, auth, os⟩).1 = .ok result) :
    ∃ i resp reply w₁ w₂ rest, StopsAt line.outcome i ∧ line.outcome i = .ok resp ∧
      Reading 0 resp reply ∧ reply.raw.params = w₁ ++ w₂ ++ rest ∧
      tpm2bFormat result.private_.bytes w₁ ∧ tpm2bFormat result.public_.bytes w₂ ∧
      ∀ parent' parentName' env',
        Sends (load P parent' parentName' result.private_ result.public_) env' (w₁ ++ w₂) := by
  obtain ⟨i, resp, reply, w₁, w₂, rest, hstops, hresp, hreading, hparams, hprivate, hpublic⟩ :=
    fields_of_create hcreate
  refine ⟨i, resp, reply, w₁, w₂, rest, hstops, hresp, hreading, hparams, hprivate, hpublic, ?_⟩
  intro parent' parentName' env'
  have harea : loadParams result.private_ result.public_ = w₁ ++ w₂ := by
    rw [loadParams_of_fits hprivate.1 hpublic.1, hprivate.2, hpublic.2]
  rw [← harea]
  exact load_sends P env' parent' parentName' result.private_ result.public_

/-- A TPM that answers a creation under a password. -/
def creatingLine : Line where
  outcomes _ := .ok [0x80, 0x02, 0, 0, 0, 28, 0, 0, 0, 0, 0, 0, 0, 9, 0, 2, 0xAA, 0xBB, 0, 1, 0xCC,
    0, 0, 0, 0, 1, 0, 0]
  sent := []

theorem load_params_of_create_password :
    (create (.ofValues [] []) ⟨0x80000000⟩ [0, 0xB] ⟨⟨[]⟩, ⟨[0x68, 0x69]⟩⟩ (.sealedData .sha256)
        ⟨creatingLine, .password [0x70, 0x77], ⟨fun _ => 0⟩⟩).1 =
      .ok { private_ := ⟨[0xAA, 0xBB]⟩, public_ := ⟨[0xCC]⟩ } ∧
    Sends (load (.ofValues [] []) ⟨0x80000001⟩ [0, 0xC] ⟨[0xAA, 0xBB]⟩ ⟨[0xCC]⟩)
      ⟨creatingLine, .none, ⟨fun _ => 0⟩⟩ [0, 2, 0xAA, 0xBB, 0, 1, 0xCC] := by
  have hcreate : (create (.ofValues [] []) ⟨0x80000000⟩ [0, 0xB] ⟨⟨[]⟩, ⟨[0x68, 0x69]⟩⟩
      (.sealedData .sha256) ⟨creatingLine, .password [0x70, 0x77], ⟨fun _ => 0⟩⟩).1 =
      .ok { private_ := ⟨[0xAA, 0xBB]⟩, public_ := ⟨[0xCC]⟩ } := by decide
  refine ⟨hcreate, ?_⟩
  obtain ⟨i, resp, reply, w₁, w₂, rest, -, -, -, -, ⟨-, rfl⟩, ⟨-, rfl⟩, hload⟩ :=
    load_params_of_create _ _ _ _ _ _ _ _ _ hcreate
  exact hload ⟨0x80000001⟩ [0, 0xC] ⟨creatingLine, .none, ⟨fun _ => 0⟩⟩

end PurecryptoTpm
