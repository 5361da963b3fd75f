import PurecryptoTpm.Codec
import PurecryptoTpm.Commands.Object
import PurecryptoTpm.Framing
import PurecryptoTpm.ResponseGrammar

/-!
What `create_primary` makes of its reply. The Name of the new object stands
behind four sized fields and a ticket that is skipped, all in one format. The
reader implements that format, so it finds the Name in every well-formed reply;
and as no encoding is a proper prefix of another, it refuses every reply that
ends inside the parameters.
-/

namespace PurecryptoTpm

/-! ### The parameters of the reply -/

/-- Public area, creation data and hash, ticket and Name. -/
structure PrimaryFields where
  outPublic : Bytes
  creationData : Bytes
  creationHash : Bytes
  ticketTag : UInt16
  ticketHierarchy : UInt32
  ticketDigest : Bytes
  name : Bytes
  deriving DecidableEq

namespace PrimaryFields

/-- The sized fields fit their lengths. -/
structure Fits (f : PrimaryFields) : Prop where
  outPublic : f.outPublic.length ≤ 65535
  creationData : f.creationData.length ≤ 65535
  creationHash : f.creationHash.length ≤ 65535
  ticketDigest : f.ticketDigest.length ≤ 65535
  name : f.name.length ≤ 65535

/-- The bytes of the ticket. -/
def ticket (f : PrimaryFields) : Bytes :=
  toBeBytes f.ticketTag ++ (toBeBytes f.ticketHierarchy ++ tpm2bBytes f.ticketDigest)

def encoding (f : PrimaryFields) : Bytes :=
  tpm2bBytes f.outPublic ++ (tpm2bBytes f.creationData ++ (tpm2bBytes f.creationHash ++
    (f.ticket ++ tpm2bBytes f.name)))

/-- What is kept of the fields. -/
def result (f : PrimaryFields) (h : Handle) : CreatePrimaryResult where
  handle := h
  name := ⟨f.name⟩
  public_ := ⟨f.outPublic⟩

theorem Fits.length_encoding_le {f : PrimaryFields} (h : f.Fits) : f.encoding.length ≤ 327691 := by
  have hpublic := h.outPublic
  have hdata := h.creationData
  have hhash := h.creationHash
  have hdigest := h.ticketDigest
  have hname := h.name
  simp only [encoding, ticket, List.length_append, length_tpm2bBytes, length_toBeBytes,
    size_uint16, size_uint32]
  omega

end PrimaryFields

/-- The reader implements the format of the fields. -/
theorem readPrimary_parses (h : Handle) : Parses Reader.between Malformed (readPrimary h)
    (fun result w => ∃ f : PrimaryFields, f.Fits ∧ result = f.result h ∧ w = f.encoding) := by
  refine (Reader.tpm2b_parses.bind fun outPublic => Reader.tpm2b_parses.bind fun creationData =>
    Reader.tpm2b_parses.bind fun creationHash => Reader.skipTkCreation_parses.bind fun _ =>
      Reader.tpm2b_parses.bind fun name => Parses.pure
        (CreatePrimaryResult.mk h ⟨name⟩ ⟨outPublic⟩)).congr
          fun result w => ⟨fun hread => ?_, fun hfields => ?_⟩
  · obtain ⟨outPublic, _, _, ⟨hpublic, rfl⟩, ⟨creationData, _, _, ⟨hdata, rfl⟩,
      ⟨creationHash, _, _, ⟨hhash, rfl⟩, ⟨_, _, _, ⟨tag, hierarchy, digest, hdigest, rfl⟩,
        ⟨name, _, _, ⟨hname, rfl⟩, ⟨rfl, rfl⟩, rfl⟩, rfl⟩, rfl⟩, rfl⟩, rfl⟩ := hread
    refine ⟨⟨outPublic, creationData, creationHash, tag, hierarchy, digest, name⟩,
      ⟨?_, ?_, ?_, ?_, ?_⟩, rfl, ?_⟩
    · exact Nat.le_of_lt_succ hpublic
    · exact Nat.le_of_lt_succ hdata
    · exact Nat.le_of_lt_succ hhash
    · exact Nat.le_of_lt_succ hdigest
    · exact Nat.le_of_lt_succ hname
    · rw [List.append_nil]
      rfl
  · obtain ⟨f, hfits, rfl, rfl⟩ := hfields
    exact ⟨f.outPublic, _, _, ⟨Nat.lt_succ_of_le hfits.outPublic, rfl⟩,
      ⟨f.creationData, _, _, ⟨Nat.lt_succ_of_le hfits.creationData, rfl⟩,
        ⟨f.creationHash, _, _, ⟨Nat.lt_succ_of_le hfits.creationHash, rfl⟩,
          ⟨(), _, _, ⟨_, _, _, Nat.lt_succ_of_le hfits.ticketDigest, rfl⟩,
            ⟨f.name, _, [], ⟨Nat.lt_succ_of_le hfits.name, rfl⟩, ⟨rfl, rfl⟩,
              (List.append_nil _).symm⟩, rfl⟩, rfl⟩, rfl⟩, rfl⟩

/-! ### Well-formed replies -/

/-- A success reply with one handle, in the shape the authorization calls for. -/
def replyTo (auth : Auth) (h : Handle) (params : Bytes) (entry : AuthResponse) : Bytes :=
  if auth.usesSessionArea then successReply st.sessions [h] (authorizedBody params entry)
  else successReply st.noSessions [h] params

/-- The reply on which the loop stops has the handle and the parameters and, if
the command was sent with an authorization area, an entry of any lengths that
the authorization lets pass. -/
def AnsweredWith (P : Purecrypto) (hierarchy : Handle) (sensitive : SensitiveCreate)
    (public_ : Public) (env : Env Line) (h : Handle) (params : Bytes) : Prop :=
  ∃ frame auth' os' i entry, requestFrame P cc.createPrimary [hierarchy]
      [permanentName hierarchy] (createParams sensitive public_) (env.auth, env.os) =
        (.ok frame, auth', os') ∧
    StopsAt env.transport.outcome i ∧
    env.transport.outcome i = .ok (replyTo auth' h params entry) ∧ entry.Fits ∧
    auth'.Accepts P cc.createPrimary [permanentName hierarchy]
      { raw := { handles := [h], params := params }, entry := some entry }

theorem conforms_replyTo {P : Purecrypto} {code : UInt32} {names : List Bytes} {auth : Auth}
    {h : Handle} {params : Bytes} {entry : AuthResponse} (hparams : params.length ≤ 327691)
    (hfits : entry.Fits) (haccepts : auth.Accepts P code names
      { raw := { handles := [h], params := params }, entry := some entry }) :
    Conforms P code names 1 auth (replyTo auth h params entry)
      { handles := [h], params := params } := by
  obtain ⟨hnonce, hhmac⟩ := hfits
  cases harea : auth.usesSessionArea with
  | false =>
      have hshape : replyTo auth h params entry = successReply st.noSessions [h] params := by
        rw [replyTo, harea]
        rfl
      rw [hshape]
      refine .bare harea rfl ?_
      rw [length_successReply, List.length_singleton]
      omega
  | true =>
      have hshape : replyTo auth h params entry =
          successReply st.sessions [h] (authorizedBody params entry) := by
        rw [replyTo, harea]
        rfl
      rw [hshape]
      refine .authorized harea rfl ⟨hnonce, hhmac⟩ ?_ haccepts
      simp only [length_successReply, authorizedBody, responseEntry, List.length_append,
        List.length_singleton, length_toBeBytes, length_tpm2bBytes, size_uint32]
      omega

section Method

variable {P : Purecrypto} {hierarchy h : Handle} {sensitive : SensitiveCreate} {public_ : Public}
  {env : Env Line} {params : Bytes}

/-- The method ends as its reader does on the parameters of the reply. -/
theorem AnsweredWith.createPrimary
    (hanswer : AnsweredWith P hierarchy sensitive public_ env h params)
    (hparams : params.length ≤ 327691) :
    (createPrimary P hierarchy sensitive public_ env).1 =
      (readPrimary h (Reader.new params)).1 := by
  obtain ⟨frame, auth', os', i, entry, hframe, hstops, hresp, hfits, haccepts⟩ := hanswer
  obtain ⟨j, hstops', hrun⟩ := run_line (n := 1) env.transport hframe
  obtain rfl := hstops.unique hstops'
  have hok := (conforms_replyTo hparams hfits haccepts).ok
  have hraw : (run P cc.createPrimary [hierarchy] [permanentName hierarchy]
      (createParams sensitive public_) 1 env).1 = .ok { handles := [h], params := params } := by
    rw [hrun, hresp, interpret_ok, hok]
  rw [PurecryptoTpm.createPrimary, Exec.bind_ok (Prod.ext hraw rfl), Exec.index_head_bind,
    Exec.alone_apply]

end Method

/-- From a well-formed reply `create_primary` takes the handle, the Name and the
public area it carries, and from one that ends inside its parameters nothing. -/
theorem createPrimary_reads (P : Purecrypto) (hierarchy : Handle) (sensitive : SensitiveCreate)
    (public_ : Public) (env : Env Line) (h : Handle) (f : PrimaryFields) (hfits : f.Fits) :
    (AnsweredWith P hierarchy sensitive public_ env h f.encoding →
      (createPrimary P hierarchy sensitive public_ env).1 = .ok (f.result h)) ∧
    ∀ params, params <+: f.encoding → params ≠ f.encoding →
      AnsweredWith P hierarchy sensitive public_ env h params →
        ∃ e, (createPrimary P hierarchy sensitive public_ env).1 = .err e := by
  have hlen := hfits.length_encoding_le
  refine ⟨fun hanswer => ?_, fun params hpart hne hanswer => ?_⟩
  · rw [hanswer.createPrimary hlen, Reader.new_ok_iff (readPrimary_parses h)]
    exact ⟨f.encoding, [], ⟨f, hfits, rfl, rfl⟩, (List.append_nil _).symm⟩
  · obtain ⟨e, _, _, -, herr⟩ := (readPrimary_parses h).truncated
      ((readPrimary_parses h).unambiguous Reader.between_inj) ⟨f, hfits, rfl, rfl⟩ hpart hne []
    rw [hanswer.createPrimary (hpart.length_le.trans hlen), Reader.new_eq_between, herr]
    exact ⟨e, rfl⟩

/-- A reply with a short public area and a Name of two bytes. -/
def smallFields : PrimaryFields where
  outPublic := [0xAA, 0xBB]
  creationData := []
  creationHash := [0xCC]
  ticketTag := 0x8021
  ticketHierarchy := 0x40000001
  ticketDigest := [0xDD]
  name := [0x00, 0x0B]

/-- A TPM that answers a password with these parameters. -/
def answeringEnv (params : Bytes) : Env Line where
  transport :=
    { outcomes := fun _ => .ok (replyTo (.password []) ⟨0x80000000⟩ params ⟨[], ⟨1⟩, []⟩)
      sent := [] }
  auth := .password []
  os := ⟨fun _ => 0⟩

theorem createPrimary_reads_password :
    (createPrimary (.ofValues [] []) ⟨0x40000001⟩ ⟨⟨[]⟩, ⟨[]⟩⟩ (.eccStorageParent .sha256)
      (answeringEnv smallFields.encoding)).1 = .ok ⟨⟨0x80000000⟩, ⟨[0x00, 0x0B]⟩, ⟨[0xAA, 0xBB]⟩⟩ ∧
    ∃ e, (createPrimary (.ofValues [] []) ⟨0x40000001⟩ ⟨⟨[]⟩, ⟨[]⟩⟩ (.eccStorageParent .sha256)
      (answeringEnv smallFields.encoding.dropLast)).1 = .err e := by
  have hfits : smallFields.Fits := ⟨by decide, by decide, by decide, by decide, by decide⟩
  have hpw : ([] : Bytes).length < 65536 := by decide
  have hentry : AuthResponse.Fits ⟨[], ⟨1⟩, []⟩ := ⟨by decide, by decide⟩
  have hfull : StopsAt (answeringEnv smallFields.encoding).transport.outcome 0 := by decide
  have hcut : StopsAt (answeringEnv smallFields.encoding.dropLast).transport.outcome 0 := by decide
  have hreads (env : Env Line) := createPrimary_reads (.ofValues [] []) ⟨0x40000001⟩ ⟨⟨[]⟩, ⟨[]⟩⟩
    (.eccStorageParent .sha256) env ⟨0x80000000⟩ smallFields hfits
  refine ⟨(hreads _).1 ?_, (hreads _).2 _ (List.dropLast_prefix _) (by decide) ?_⟩
  · exact ⟨_, _, _, 0, _, requestFrame_password hpw, hfull, rfl, hentry, trivial⟩
  · exact ⟨_, _, _, 0, _, requestFrame_password hpw, hcut, rfl, hentry, trivial⟩

end PurecryptoTpm
