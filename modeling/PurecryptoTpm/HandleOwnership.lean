import PurecryptoTpm.Codec
import PurecryptoTpm.Commands.Object
import PurecryptoTpm.Commands.Session
import PurecryptoTpm.Framing
import PurecryptoTpm.PrimaryCreation
import PurecryptoTpm.Resubmission
import PurecryptoTpm.ResponseGrammar

/-!
Who owns a handle that the TPM has allocated. A TPM that answers correctly
either reports a code, and has allocated nothing, or grants one handle in a
well-formed success reply. The caller must then get hold of that handle, since
nothing else can flush it. The methods that load an object keep it whatever they
are called with. Starting a session loses it if the host does not know the hash
algorithm, which it finds out only after the TPM has answered.
-/

namespace PurecryptoTpm

/-! ### What a TPM grants -/

/-- A success reply that starts with a handle. -/
def Grants (h : Handle) (resp : Bytes) : Prop := ∃ tag body, resp = successReply tag [h] body

/-- One of the transmissions in between was answered with a handle. -/
def Granted (line line' : Line) (h : Handle) : Prop :=
  ∃ i resp, line.sent.length + i < line'.sent.length ∧ line.outcome i = .ok resp ∧ Grants h resp

/-- A reply that reports a code. -/
def Reports (resp : Bytes) : Prop :=
  ∃ tag size rc rest, rc ≠ 0 ∧ resp = responseHeader tag size rc ++ rest

/-- All answers are replies that report a code or well-formed success replies
with one handle, a right HMAC if there is to be one, and parameters of the form
the command has. -/
def Answers (P : Purecrypto) (code : UInt32) (names : List Bytes) (auth : Auth)
    (F : Bytes → Prop) (line : Line) : Prop :=
  ∀ i resp, line.outcome i = .ok resp →
    Reports resp ∨ ∃ raw, Conforms P code names 1 auth resp raw ∧ F raw.params

theorem Reports.not_grants {resp : Bytes} (h : Reports resp) (handle : Handle) :
    ¬ Grants handle resp := by
  obtain ⟨tag, size, rc, rest, hrc, rfl⟩ := h
  rintro ⟨tag', body, hbytes⟩
  rw [successReply_eq] at hbytes
  exact hrc (responseHeader_inj hbytes).2.2.1

theorem TransientReply.reports {resp : Bytes} (h : TransientReply resp) : Reports resp := by
  obtain ⟨tag, size, rc, rest, hresp, hrc⟩ := h
  refine ⟨tag, size, rc, rest, ?_, hresp⟩
  rcases hrc with rfl | rfl | rfl <;> decide

/-- The handle of a well-formed reply is the one it grants. -/
theorem Conforms.handles_eq {P : Purecrypto} {code : UInt32} {names : List Bytes} {auth : Auth}
    {resp : Bytes} {raw : RawResponse} (h : Conforms P code names 1 auth resp raw) :
    ∃ handle, raw.handles = [handle] ∧ ∀ handle', Grants handle' resp → handle' = handle := by
  suffices hshape : ∃ handle tag body, raw.handles = [handle] ∧
      resp = successReply tag [handle] body by
    obtain ⟨handle, tag, body, hhandles, rfl⟩ := hshape
    refine ⟨handle, hhandles, ?_⟩
    rintro ⟨raw'⟩ ⟨tag', body', hbytes⟩
    have hcount : [handle].length = [Handle.mk raw'].length := rfl
    obtain ⟨-, harea, -⟩ := successReply_inj hcount hbytes
    have hraw : toBeBytes handle.raw = toBeBytes raw' := by simpa [handleArea] using harea
    rw [← toBeBytes_injective hraw]
  cases h with
  | bare _ hcount _ =>
      obtain ⟨handle, rfl⟩ := List.length_eq_one_iff.1 hcount
      exact ⟨handle, _, _, rfl, rfl⟩
  | authorized _ hcount _ _ _ =>
      obtain ⟨handle, rfl⟩ := List.length_eq_one_iff.1 hcount
      exact ⟨handle, _, _, rfl, rfl⟩

/-! ### Running a command that is granted a handle -/

/-- How such a run ends: with the one handle that was granted, or with an error
and nothing granted. -/
inductive RunGrants (F : Bytes → Prop) (line : Line) : Outcome Error RawResponse → Line → Prop where
  | granted {raw : RawResponse} {h : Handle} {line' : Line} (hhandles : raw.handles = [h])
      (hparams : F raw.params) (honly : ∀ h', Granted line line' h' → h' = h) :
      RunGrants F line (.ok raw) line'
  | refused {e : Error} {line' : Line} (hnone : ∀ h, ¬ Granted line line' h) :
      RunGrants F line (.err e) line'

theorem not_granted_refl (line : Line) (h : Handle) : ¬ Granted line line h := by
  rintro ⟨i, resp, hlt, -⟩
  omega

section Run

variable {P : Purecrypto} {code : UInt32} {handles : List Handle} {names : List Bytes}
  {params : Bytes} {F : Bytes → Prop} {line : Line} {auth auth' : Auth} {os os' : OsRng}
  {frame : Bytes}

theorem run_grants
    (hframe : requestFrame P code handles names params (auth, os) = (.ok frame, auth', os'))
    (hanswers : Answers P code names auth' F line) :
    RunGrants F line (run P code handles names params 1 ⟨line, auth, os⟩).1
      (run P code handles names params 1 ⟨line, auth, os⟩).2.transport := by
  obtain ⟨i, hstop, hrun⟩ := run_line (n := 1) line hframe
  rw [hrun]
  -- what came before the last transmission only reported a transient warning
  have hlast : ∀ h, Granted line (line.pushes (i + 1) frame) h →
      ∃ resp, line.outcome i = .ok resp ∧ Grants h resp := by
    rintro h ⟨j, resp, hlt, hresp, hgrants⟩
    have hle : j ≤ i := by
      simp only [Line.pushes, List.length_append, List.length_replicate] at hlt
      omega
    rcases Nat.lt_or_eq_of_le hle with hlt | rfl
    · obtain ⟨resp', hresp', htransient⟩ := hstop.2.1 j hlt
      obtain rfl : resp = resp' := Except.ok.inj (hresp.symm.trans hresp')
      exact absurd hgrants (htransient.reports.not_grants h)
    · exact ⟨resp, hresp, hgrants⟩
  cases hresp : line.outcome i with
  | error e =>
      rw [interpret_error]
      apply RunGrants.refused
      intro h hgranted
      obtain ⟨resp, hresp', -⟩ := hlast h hgranted
      simp [hresp] at hresp'
  | ok resp =>
      have hgrants : ∀ h, Granted line (line.pushes (i + 1) frame) h → Grants h resp := by
        intro h hgranted
        obtain ⟨resp', hresp', hgrants⟩ := hlast h hgranted
        rwa [Except.ok.inj (hresp.symm.trans hresp')]
      rw [interpret_ok]
      rcases hanswers i resp hresp with hreports | ⟨raw, hconforms, hparams⟩
      · obtain ⟨tag, size, rc, rest, hrc, rfl⟩ := id hreports
        rw [parseResponse_of_rc P code names 1 auth' tag size hrc rest]
        exact .refused fun h hgranted => hreports.not_grants h (hgrants h hgranted)
      · obtain ⟨h, hhandles, honly⟩ := hconforms.handles_eq
        rw [hconforms.ok]
        exact .granted hhandles hparams fun h' hgranted => honly h' (hgrants h' hgranted)

/-- Whatever frame the command is sent in, the TPM answers it correctly. -/
def AnswersCommand (P : Purecrypto) (code : UInt32) (handles : List Handle) (names : List Bytes)
    (params : Bytes) (F : Bytes → Prop) (env : Env Line) : Prop :=
  ∀ frame auth' os', requestFrame P code handles names params (env.auth, env.os) =
    (.ok frame, auth', os') → Answers P code names auth' F env.transport

/-- If no frame can be built, nothing is granted either. -/
theorem AnswersCommand.run_grants {env : Env Line}
    (h : AnswersCommand P code handles names params F env) :
    RunGrants F env.transport (run P code handles names params 1 env).1
      (run P code handles names params 1 env).2.transport := by
  by_cases hbuildable : env.auth.Buildable
  · obtain ⟨frame, ⟨auth', os'⟩, hframe⟩ :=
      @requestFrame_of_buildable P code handles names params env.auth hbuildable env.os
    exact PurecryptoTpm.run_grants hframe (h frame auth' os' hframe)
  · obtain ⟨e, herr⟩ :=
      @requestFrame_of_not_buildable P code handles names params env.auth hbuildable env.os
    rw [run_of_frame_err herr]
    exact RunGrants.refused (not_granted_refl env.transport)

end Run

/-! ### The methods that are granted a handle -/

/-- A `TPM2B` and nothing else: the nonce of a started session, the Name of a
loaded object. -/
def SizedParams (params : Bytes) : Prop :=
  ∃ data : Bytes, data.length < 65536 ∧ params = tpm2bBytes data

/-- A creation ticket: a tag, a hierarchy and a digest. -/
def TicketParams (params : Bytes) : Prop :=
  ∃ (tag : UInt16) (hierarchy : UInt32) (digest : Bytes), digest.length < 65536 ∧
    params = toBeBytes tag ++ (toBeBytes hierarchy ++ tpm2bBytes digest)

/-- Public area, creation data and hash, ticket and Name. -/
def CreatePrimaryParams (params : Bytes) : Prop :=
  ∃ outPublic creationData creationHash ticket name : Bytes,
    outPublic.length < 65536 ∧ creationData.length < 65536 ∧ creationHash.length < 65536 ∧
    TicketParams ticket ∧ name.length < 65536 ∧
    params = tpm2bBytes outPublic ++ (tpm2bBytes creationData ++ (tpm2bBytes creationHash ++
      (ticket ++ tpm2bBytes name)))

theorem CreatePrimaryParams.fields {params : Bytes} (h : CreatePrimaryParams params) :
    ∃ f : PrimaryFields, f.Fits ∧ params = f.encoding := by
  obtain ⟨outPublic, creationData, creationHash, ticket, name, hpublic, hdata, hhash,
    ⟨tag, hierarchy, digest, hdigest, rfl⟩, hname, rfl⟩ := h
  refine ⟨⟨outPublic, creationData, creationHash, tag, hierarchy, digest, name⟩, ?_, rfl⟩
  exact ⟨Nat.le_of_lt_succ hpublic, Nat.le_of_lt_succ hdata, Nat.le_of_lt_succ hhash,
    Nat.le_of_lt_succ hdigest, Nat.le_of_lt_succ hname⟩

/-- Whatever handle was granted has been returned or flushed. -/
def Kept {α : Type} (handleOf : α → Handle) (line : Line) (o : Outcome Error α) (line' : Line) :
    Prop :=
  ∀ h, Granted line line' h → (∃ a, o = .ok a ∧ handleOf a = h) ∨
    commandFrame st.noSessions cc.flushContext (marshal h []) ∈ line'.sent.drop line.sent.length

theorem Kept.of_err {α : Type} {handleOf : α → Handle} {line line' : Line} {e : Error}
    (h : ∀ h, ¬ Granted line line' h) : Kept handleOf line (.err e) line' :=
  fun handle hgranted => absurd hgranted (h handle)

/-- A method that runs its command and then never fails on a correct reply. -/
theorem kept_of_run {α : Type} {handleOf : α → Handle} {F : Bytes → Prop} {env : Env Line}
    {x : Exec Error (Env Line) RawResponse} {f : RawResponse → Exec Error (Env Line) α}
    (hgrants : RunGrants F env.transport (x env).1 (x env).2.transport)
    (hf : ∀ raw h env', raw.handles = [h] → F raw.params →
      ∃ a, f raw env' = (.ok a, env') ∧ handleOf a = h) :
    Kept handleOf env.transport ((x >>= f) env).1 ((x >>= f) env).2.transport := by
  rcases hx : x env with ⟨o, env'⟩
  rw [hx] at hgrants
  cases hgrants with
  | refused hnone =>
      rw [Exec.bind_err hx]
      exact Kept.of_err hnone
  | @granted raw handle _ hhandles hparams honly =>
      obtain ⟨a, hok, hhandle⟩ := hf raw handle env' hhandles hparams
      rw [Exec.bind_ok hx, hok]
      intro h hgranted
      exact .inl ⟨a, rfl, hhandle.trans (honly h hgranted).symm⟩

theorem index_handle {σ α : Type} {raw : RawResponse} {h : Handle} (hhandles : raw.handles = [h])
    (f : Handle → Exec Error σ α) (s : σ) : (Exec.index raw.handles 0 >>= f) s = f h s := by
  rw [hhandles, Exec.index_head_bind]

section Methods

variable {P : Purecrypto} {env : Env Line}

theorem createPrimary_kept {hierarchy : Handle} {sensitive : SensitiveCreate} {public_ : Public}
    (h : AnswersCommand P cc.createPrimary [hierarchy] [permanentName hierarchy]
      (createParams sensitive public_) CreatePrimaryParams env) :
    Kept CreatePrimaryResult.handle env.transport
      (createPrimary P hierarchy sensitive public_ env).1
      (createPrimary P hierarchy sensitive public_ env).2.transport := by
  rw [createPrimary]
  apply kept_of_run h.run_grants
  intro raw handle env' hhandles hparams
  obtain ⟨f, hfits, hparams⟩ := hparams.fields
  refine ⟨f.result handle, ?_, rfl⟩
  rw [index_handle hhandles]
  exact Reader.alone_new (readPrimary_parses handle) ⟨f, hfits, rfl, hparams⟩ env'

theorem load_kept {parent : Handle} {parentName : Bytes} {inPrivate inPublic : Buffer}
    (h : AnswersCommand P cc.load [parent] [parentName] (marshal inPublic (marshal inPrivate []))
      SizedParams env) :
    Kept LoadResult.handle env.transport (load P parent parentName inPrivate inPublic env).1
      (load P parent parentName inPrivate inPublic env).2.transport := by
  apply kept_of_run h.run_grants
  intro raw handle env' hhandles hparams
  obtain ⟨name, hname, hparams⟩ := hparams
  refine ⟨⟨handle, ⟨name⟩⟩, ?_, rfl⟩
  rw [index_handle hhandles, Exec.alone_apply, Reader.new_eq_between, hparams,
    ← List.append_nil (tpm2bBytes name), Reader.tpm2b_parses.bind_complete ⟨hname, rfl⟩]
  rfl

theorem startAuthSessionParams_of_lt {σ : Type} (hashAlg : Alg) {nonceCaller : Bytes}
    (h : nonceCaller.length < 65536) (s : σ) :
    startAuthSessionParams hashAlg nonceCaller s =
      (.ok (marshal hashAlg (marshal SymDefObject.null
        (tpm2bBytes nonceCaller ++ tpm2bBytes [] ++ [se.hmac]))), s) := by
  have hempty : ([] : Bytes).length < 65536 := by decide
  rw [startAuthSessionParams, Exec.bind_ok (appendTpm2b_of_lt h _ s),
    Exec.bind_ok (appendTpm2b_of_lt hempty _ s), Exec.pure_apply, List.nil_append]

theorem startAuthSessionParams_of_ge {σ : Type} (hashAlg : Alg) {nonceCaller : Bytes}
    (h : 65536 ≤ nonceCaller.length) (s : σ) :
    startAuthSessionParams hashAlg nonceCaller s =
      (.err (.malformed "TPM2B exceeds 65535 bytes"), s) := by
  rw [startAuthSessionParams, Exec.bind_err (appendTpm2b_of_ge h _ s)]

/-- A nonce that does not fit is refused before anything else. -/
theorem startAuthSession_of_ge (P : Purecrypto) (env : Env Line) (hashAlg : Alg)
    {nonceCaller : Bytes} (h : 65536 ≤ nonceCaller.length) :
    startAuthSession P hashAlg nonceCaller env =
      (.err (.malformed "TPM2B exceeds 65535 bytes"), env) := by
  rw [startAuthSession, Exec.bind_err (startAuthSessionParams_of_ge hashAlg h env)]

theorem startAuthSession_kept {hashAlg : Alg} {nonceCaller : Bytes} {n : ℕ}
    (h : Answers P cc.startAuthSession [] .none SizedParams env.transport)
    (hsize : crypto.digestSize hashAlg = .ok n) :
    Kept Session.handle env.transport (startAuthSession P hashAlg nonceCaller env).1
      (startAuthSession P hashAlg nonceCaller env).2.transport := by
  rcases Nat.lt_or_ge nonceCaller.length 65536 with hlt | hge
  · rw [startAuthSession, Exec.bind_ok (startAuthSessionParams_of_lt hashAlg hlt env)]
    apply kept_of_run (F := SizedParams) (run_grants requestFrame_none h)
    intro raw handle env' hhandles hparams
    obtain ⟨nonceTpm, hnonce, hparams⟩ := hparams
    have hread := Reader.alone_new Reader.tpm2b_parses ⟨hnonce, hparams⟩ env'
    rw [index_handle hhandles, Exec.bind_ok hread, Session.new_unkeyed hsize]
    exact ⟨_, rfl, rfl⟩
  · rw [startAuthSession_of_ge P env hashAlg hge]
    exact Kept.of_err (not_granted_refl env.transport)

/-- The hash algorithm is not looked at until the TPM has been asked. -/
theorem startAuthSession_transmits (P : Purecrypto) (env : Env Line) {hashAlg : Alg}
    {nonceCaller : Bytes} {e : Error} (hlt : nonceCaller.length < 65536)
    (hsize : crypto.digestSize hashAlg = .error e) :
    env.transport.sent.length <
      (startAuthSession P hashAlg nonceCaller env).2.transport.sent.length := by
  have hnew : ∀ handle nonceTpm (s : Env Line), (Session.new P handle hashAlg nonceTpm nonceCaller
      ⟨SessionAttributes.continueSession⟩ [] [] [] s).2 = s := by
    intro handle nonceTpm s
    rw [Session.new, hsize, Exec.ofExcept_error_bind]
  rw [startAuthSession, Exec.bind_ok (startAuthSessionParams_of_lt hashAlg hlt env),
    Exec.bind_snd]
  · have hframe : requestFrame P cc.startAuthSession [⟨rh.null⟩, ⟨rh.null⟩] []
        (marshal hashAlg (marshal SymDefObject.null
          (tpm2bBytes nonceCaller ++ tpm2bBytes [] ++ [se.hmac]))) (.none, env.os) = _ :=
      requestFrame_none
    obtain ⟨i, -, hrun⟩ := run_line (n := 1) env.transport hframe
    rw [Env.withAuth_apply, hrun]
    simp [Line.pushes]
  · intro raw s
    rw [Exec.bind_snd, Exec.index_snd]
    intro handle s
    rw [Exec.bind_snd (hnew handle)]
    rfl

theorem startHmacSession_kept {hashAlg : Alg}
    (h : Answers P cc.startAuthSession [] .none SizedParams env.transport) :
    Kept Session.handle env.transport (startHmacSession P hashAlg env).1
      (startHmacSession P hashAlg env).2.transport := by
  rw [startHmacSession]
  cases hsize : crypto.digestSize hashAlg with
  | error e =>
      rw [Exec.ofExcept_error_bind]
      exact Kept.of_err (not_granted_refl env.transport)
  | ok n =>
      have hfill : Env.onCaller (Exec.onSnd (OsRng.fillBytes n)) env =
          (.ok (env.os.drawn n), { env with os := env.os.skip n }) := rfl
      rw [Exec.ofExcept_ok_bind, Exec.bind_ok hfill]
      have hsame : Answers P cc.startAuthSession [] .none SizedParams
          ({ env with os := env.os.skip n } : Env Line).transport := h
      exact startAuthSession_kept hsame hsize

end Methods

/-- The methods whose command allocates a handle, with their arguments. -/
inductive AllocatingCall where
  | createPrimary (hierarchy : Handle) (sensitive : SensitiveCreate) (public_ : Public)
  | load (parent : Handle) (parentName : Bytes) (inPrivate inPublic : Buffer)
  | startAuthSession (hashAlg : Alg) (nonceCaller : Bytes)
  | startHmacSession (hashAlg : Alg)

namespace AllocatingCall

/-- The TPM answers the command of a call correctly. -/
def Answered (P : Purecrypto) (env : Env Line) : AllocatingCall → Prop
  | createPrimary hierarchy sensitive public_ =>
      AnswersCommand P cc.createPrimary [hierarchy] [permanentName hierarchy]
        (createParams sensitive public_) CreatePrimaryParams env
  | load parent parentName inPrivate inPublic =>
      AnswersCommand P cc.load [parent] [parentName] (marshal inPublic (marshal inPrivate []))
        SizedParams env
  | startAuthSession _ _ => Answers P cc.startAuthSession [] .none SizedParams env.transport
  | startHmacSession _ => Answers P cc.startAuthSession [] .none SizedParams env.transport

/-- A handle that the call was granted is not lost. -/
def KeepsHandle (P : Purecrypto) (env : Env Line) : AllocatingCall → Prop
  | createPrimary hierarchy sensitive public_ =>
      Kept CreatePrimaryResult.handle env.transport
        (PurecryptoTpm.createPrimary P hierarchy sensitive public_ env).1
        (PurecryptoTpm.createPrimary P hierarchy sensitive public_ env).2.transport
  | load parent parentName inPrivate inPublic =>
      Kept LoadResult.handle env.transport
        (PurecryptoTpm.load P parent parentName inPrivate inPublic env).1
        (PurecryptoTpm.load P parent parentName inPrivate inPublic env).2.transport
  | startAuthSession hashAlg nonceCaller =>
      Kept Session.handle env.transport
        (PurecryptoTpm.startAuthSession P hashAlg nonceCaller env).1
        (PurecryptoTpm.startAuthSession P hashAlg nonceCaller env).2.transport
  | startHmacSession hashAlg =>
      Kept Session.handle env.transport (PurecryptoTpm.startHmacSession P hashAlg env).1
        (PurecryptoTpm.startHmacSession P hashAlg env).2.transport

/-- A session over an algorithm without a digest size is refused, with nothing transmitted. -/
def RefusesHash (P : Purecrypto) (env : Env Line) : AllocatingCall → Prop
  | startAuthSession hashAlg nonceCaller =>
      (∀ n, crypto.digestSize hashAlg ≠ .ok n) →
        (∃ e, (PurecryptoTpm.startAuthSession P hashAlg nonceCaller env).1 = .err e) ∧
        (PurecryptoTpm.startAuthSession P hashAlg nonceCaller env).2.transport = env.transport
  | _ => True

/-- The host knows the hash algorithm of a session it is given the nonce for,
unless that nonce does not fit its length field. -/
def HashKnown : AllocatingCall → Prop
  | startAuthSession hashAlg nonceCaller =>
      (∃ n, crypto.digestSize hashAlg = .ok n) ∨ 65536 ≤ nonceCaller.length
  | _ => True

/-- Against a TPM that answers correctly no handle is lost, and no session is
asked for in vain, exactly if the host knows the hash algorithm. -/
theorem keepsHandle_iff {P : Purecrypto} {env : Env Line} {c : AllocatingCall}
    (h : c.Answered P env) :
    (c.KeepsHandle P env ∧ c.RefusesHash P env) ↔ c.HashKnown := by
  cases c with
  | createPrimary hierarchy sensitive public_ =>
      exact iff_of_true ⟨createPrimary_kept h, trivial⟩ trivial
  | load parent parentName inPrivate inPublic => exact iff_of_true ⟨load_kept h, trivial⟩ trivial
  | startHmacSession hashAlg => exact iff_of_true ⟨startHmacSession_kept h, trivial⟩ trivial
  | startAuthSession hashAlg nonceCaller =>
      constructor
      · rintro ⟨-, hrefuses⟩
        by_contra hunknown
        obtain ⟨hsize, hnonce⟩ := not_or.1 hunknown
        cases herror : crypto.digestSize hashAlg with
        | ok n => exact hsize ⟨n, herror⟩
        | error e =>
            have hsent := startAuthSession_transmits P env (Nat.lt_of_not_le hnonce) herror
            have hsame := (hrefuses fun n hn => hsize ⟨n, hn⟩).2
            rw [hsame] at hsent
            exact absurd hsent (Nat.lt_irrefl _)
      · rintro (⟨n, hsize⟩ | hnonce)
        · exact ⟨startAuthSession_kept h hsize, fun hnone => absurd hsize (hnone n)⟩
        · have hrefused := startAuthSession_of_ge P env hashAlg hnonce
          refine ⟨?_, fun _ => ?_⟩
          · rw [KeepsHandle, hrefused]
            exact Kept.of_err (not_granted_refl env.transport)
          · rw [hrefused]
            exact ⟨⟨_, rfl⟩, rfl⟩

/-- A TPM that starts a session, over whatever hash algorithm. -/
def grantingLine : Line where
  outcomes _ := .ok (successReply st.noSessions [⟨0x0200_0000⟩]
    (tpm2bBytes (List.replicate 16 0x11)))
  sent := []

def grantingEnv : Env Line := ⟨grantingLine, .none, ⟨fun _ => 0⟩⟩

theorem grantingLine_answers :
    Answers (.ofValues [] []) cc.startAuthSession [] .none SizedParams grantingLine := by
  rintro i resp ⟨rfl⟩
  refine .inr ⟨_, .bare rfl rfl (by decide), List.replicate 16 0x11, by decide, rfl⟩

/-- A session over SHA-256, which the host knows. -/
def sha256Start : AllocatingCall := .startAuthSession Alg.sha256 (List.replicate 16 0x22)

theorem keepsHandle_sha256Start :
    sha256Start.KeepsHandle (.ofValues [] []) grantingEnv ∧
      sha256Start.RefusesHash (.ofValues [] []) grantingEnv := by
  have hanswered : sha256Start.Answered (.ofValues [] []) grantingEnv := grantingLine_answers
  exact (keepsHandle_iff hanswered).2 (.inl ⟨32, rfl⟩)

/-- A session over the algorithm 0x0027, SHA3-256, which the TPM alone knows. -/
def sha3Start : AllocatingCall := .startAuthSession ⟨0x0027⟩ (List.replicate 16 0x22)

/-- Its handle is neither returned nor flushed, and the command is transmitted. -/
theorem not_keepsHandle_sha3Start :
    sha3Start.Answered (.ofValues [] []) grantingEnv ∧
      ¬ sha3Start.KeepsHandle (.ofValues [] []) grantingEnv ∧
      ¬ sha3Start.RefusesHash (.ofValues [] []) grantingEnv := by
  have hunknown : crypto.digestSize ⟨0x0027⟩ = .error (.usage "not a hash algorithm") := rfl
  have hsent : (PurecryptoTpm.startAuthSession (.ofValues [] []) ⟨0x0027⟩ (List.replicate 16 0x22)
      grantingEnv).2.transport.sent.length = 1 := by decide
  have herr : (PurecryptoTpm.startAuthSession (.ofValues [] []) ⟨0x0027⟩ (List.replicate 16 0x22)
      grantingEnv).1 = .err (.usage "not a hash algorithm") := by decide
  have hflush : commandFrame st.noSessions cc.flushContext (marshal (Handle.mk 0x0200_0000) []) ∉
      (PurecryptoTpm.startAuthSession (.ofValues [] []) ⟨0x0027⟩ (List.replicate 16 0x22)
        grantingEnv).2.transport.sent.drop 0 := by decide
  refine ⟨grantingLine_answers, ?_, ?_⟩
  · intro hkept
    have hgranted : Granted grantingLine (PurecryptoTpm.startAuthSession (.ofValues [] []) ⟨0x0027⟩
        (List.replicate 16 0x22) grantingEnv).2.transport ⟨0x0200_0000⟩ :=
      ⟨0, _, by rw [hsent]; decide, rfl, _, _, rfl⟩
    rcases hkept _ hgranted with ⟨session, hok, -⟩ | hflushed
    · exact absurd (herr.symm.trans hok) (by simp)
    · exact hflush hflushed
  · intro hrefuses
    obtain ⟨-, hsame⟩ := hrefuses fun n => by rw [hunknown]; simp
    have hnone := hsent.symm.trans (congrArg (·.sent.length) hsame)
    exact absurd hnone (by decide)

end AllocatingCall

end PurecryptoTpm
