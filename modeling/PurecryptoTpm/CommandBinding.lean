import PurecryptoTpm.Exchange

/-!
What a command HMAC pins down. The hash over a command and the message of its
HMAC are plain concatenations. They can nevertheless be taken apart: a Name
announces its length in its first two bytes, and the fields around the nonce
of the TPM have fixed sizes.
-/

namespace PurecryptoTpm

/-- The upper sixteen bits of a handle, where an object's Name has its hash algorithm. -/
def Handle.upper (handle : Handle) : Alg := ⟨UInt16.ofNat (handle.raw.toNat / 65536)⟩

/-- The Name of a permanent handle that cannot be mistaken for an object's, or
an object's: its hash algorithm and a digest. -/
inductive WellFormedName : Bytes → Prop where
  | permanent (handle : Handle) (h : Digest.ofAlg handle.upper = none) :
      WellFormedName (permanentName handle)
  | object {alg : Alg} {d : Digest} (h : Digest.ofAlg alg = some d) {digest : Bytes}
      (hlen : alg.digestSize = some digest.length) :
      WellFormedName (toBeBytes alg.raw ++ digest)

/-! ### Names are prefix-free -/

theorem Digest.digestSize_ofAlg {alg : Alg} {d : Digest} (h : Digest.ofAlg alg = some d) :
    alg.digestSize = some d.size := by
  have hsize := crypto.digestSize_of_some h
  rw [crypto.digestSize] at hsize
  split at hsize
  · obtain ⟨hmem, -⟩ := Option.filter_eq_some_iff.mp ‹_›
    rw [hmem, Except.ok.inj hsize]
  · simp at hsize

/-- The length a Name's first two bytes announce. -/
def announcedLength (start : Bytes) : ℕ :=
  match Digest.ofAlg ⟨fromBeBytes start⟩ with
  | some d => 2 + d.size
  | none => 4

theorem permanentName_eq (handle : Handle) :
    permanentName handle = toBeBytes handle.upper.raw ++
      BigEndian.bytes 2 handle.raw.toNat := by
  have hlt : handle.raw.toNat / 65536 < 65536 := by
    have := handle.raw.toNat_lt
    omega
  have hupper : toBeBytes handle.upper.raw = BigEndian.bytes 2 (handle.raw.toNat / 65536) := by
    rw [toBeBytes, Handle.upper]
    exact congrArg (BigEndian.bytes 2) (UInt16.toNat_ofNat_of_lt' hlt)
  rw [hupper]
  exact BigEndian.bytes_add 2 2 handle.raw.toNat

theorem WellFormedName.length {name : Bytes} (h : WellFormedName name) :
    2 ≤ name.length ∧ name.length = announcedLength (name.take 2) := by
  cases h with
  | permanent handle h =>
      have htake : (permanentName handle).take 2 = toBeBytes handle.upper.raw := by
        rw [permanentName_eq, List.take_append_of_le_length (by simp)]
        apply List.take_of_length_le
        simp
      have hlen : (permanentName handle).length = 4 := length_toBeBytes handle.raw
      rw [htake, announcedLength, fromBeBytes_toBeBytes, h, hlen]
      exact ⟨by omega, rfl⟩
  | @object alg d h digest hlen =>
      have htake : (toBeBytes alg.raw ++ digest).take 2 = toBeBytes alg.raw := by
        rw [List.take_append_of_le_length (by simp)]
        apply List.take_of_length_le
        simp
      have hsize : d.size = digest.length := by
        rw [Digest.digestSize_ofAlg h] at hlen
        exact Option.some.inj hlen
      rw [htake, announcedLength, fromBeBytes_toBeBytes, h, List.length_append,
        length_toBeBytes, size_uint16, ← hsize]
      exact ⟨by omega, rfl⟩

/-- Names stand for themselves. -/
def nameFormat : Format UInt8 Bytes := fun name w => w = name ∧ WellFormedName name

theorem nameFormat_unambiguous : Format.Unambiguous nameFormat := by
  refine Format.unambiguous_of_announced 2 announcedLength ?_ ?_
  · rintro name w ⟨rfl, h⟩
    exact h.length
  · rintro name name' w ⟨rfl, -⟩ ⟨rfl, -⟩
    rfl

/-- Equally many well-formed Names can be told from what follows them. -/
theorem names_append_inj {names names' : List Bytes} {s t : Bytes}
    (hcount : names.length = names'.length) (hnames : ∀ name ∈ names, WellFormedName name)
    (hnames' : ∀ name ∈ names', WellFormedName name)
    (h : names.flatten ++ s = names'.flatten ++ t) : names = names' ∧ s = t := by
  have hvector : ∀ {l : List Bytes}, (∀ name ∈ l, WellFormedName name) →
      Format.vector nameFormat l.length l l.flatten := by
    intro l hl
    have hmap := Format.vector_flatten (E := nameFormat) id fun name hname => ⟨rfl, hl name hname⟩
    rwa [List.map_id] at hmap
  obtain ⟨heq, -, hrest⟩ := (nameFormat_unambiguous.vector names.length) (hvector hnames)
    (hcount ▸ hvector hnames') h
  exact ⟨heq, hrest⟩

/-! ### Commands and their HMACs -/

/-- The hash over a command determines its code, Names and parameters. -/
theorem cpHashParts_inj {code code' : UInt32} {names names' : List Bytes} {params params' : Bytes}
    (hcount : names.length = names'.length) (hnames : ∀ name ∈ names, WellFormedName name)
    (hnames' : ∀ name ∈ names', WellFormedName name)
    (h : (cpHashParts code names params).flatten = (cpHashParts code' names' params').flatten) :
    code = code' ∧ names = names' ∧ params = params' := by
  simp only [cpHashParts, List.flatten_append, List.flatten_cons, List.flatten_nil,
    List.append_nil, List.append_assoc] at h
  obtain ⟨hcode, hrest⟩ := List.append_inj h (by simp)
  obtain ⟨hnames_eq, hparams⟩ := names_append_inj hcount hnames hnames' hrest
  exact ⟨toBeBytes_injective hcode, hnames_eq, hparams⟩

/-- Two fields of known size in front and one byte behind leave one way to cut
out the field of unknown size. -/
theorem message_inj {a a' b b' c c' : Bytes} {x x' : UInt8} (ha : a.length = a'.length)
    (hb : b.length = b'.length) (h : a ++ b ++ c ++ [x] = a' ++ b' ++ c' ++ [x']) :
    a = a' ∧ b = b' ∧ c = c' ∧ x = x' := by
  obtain ⟨h, hx⟩ := List.append_inj' h rfl
  rw [List.append_assoc, List.append_assoc] at h
  obtain ⟨hfirst, h⟩ := List.append_inj h ha
  obtain ⟨hsecond, hthird⟩ := List.append_inj h hb
  exact ⟨hfirst, hsecond, hthird, by simpa using hx⟩

theorem length_of_cpHash {P : Purecrypto} {alg : Alg} {d : Digest} {code : UInt32}
    {names : List Bytes} {params cp : Bytes} (hd : Digest.ofAlg alg = some d)
    (h : cpHash P alg code names params = .ok cp) : cp.length = d.size := by
  rw [cpHash, crypto.hashParts_of_some hd] at h
  rw [← Except.ok.inj h, P.length_hash]

/-- Two different messages with one hash. -/
def HashCollision (P : Purecrypto) (d : Digest) (m m' : Bytes) : Prop :=
  m ≠ m' ∧ P.hash d m = P.hash d m'

/-- Two different messages with one HMAC under the given keys. -/
def HmacCollision (P : Purecrypto) (d : Digest) (key key' m m' : Bytes) : Prop :=
  m ≠ m' ∧ P.hmac d key m = P.hmac d key' m'

section Message

variable {P : Purecrypto} {d : Digest} {s s' : Session} {code code' : UInt32}
  {names names' : List Bytes} {params params' cp cp' : Bytes}

/-- Equal messages of the command HMAC come from equal hashes, nonces and attributes. -/
theorem commandParts_inj (hd : Digest.ofAlg s.hashAlg = some d) (halg : s'.hashAlg = s.hashAlg)
    (hnonce : s.nonceCaller.length = d.size) (hnonce' : s'.nonceCaller.length = d.size)
    (hcp : cpHash P s.hashAlg code names params = .ok cp)
    (hcp' : cpHash P s'.hashAlg code' names' params' = .ok cp')
    (h : (s.commandParts cp).flatten = (s'.commandParts cp').flatten) :
    cp = cp' ∧ s.nonceCaller = s'.nonceCaller ∧ s.nonceTpm = s'.nonceTpm ∧
      s.attributes = s'.attributes := by
  have hlen : cp.length = cp'.length := by
    rw [length_of_cpHash hd hcp, length_of_cpHash (halg ▸ hd) hcp']
  -- the nonce of unknown length stands between fields of known size
  simp only [Session.commandParts, List.flatten_cons, List.flatten_nil, List.append_nil,
    ← List.append_assoc] at h
  obtain ⟨hcp_eq, hcaller, htpm, hattributes⟩ := message_inj hlen (by rw [hnonce, hnonce']) h
  refine ⟨hcp_eq, hcaller, htpm, ?_⟩
  cases hs : s.attributes
  cases hs' : s'.attributes
  simpa [hs, hs'] using hattributes

/-- What an authorization of a command is, with the session it leaves. -/
theorem of_commandAuth {t : Session} {authValue objectName nonce : Bytes} {auth : AuthCommand}
    (hd : Digest.ofAlg s.hashAlg = some d)
    (h : s.commandAuth P cp authValue objectName nonce = (.ok auth, t)) :
    t = { s with nonceCaller := nonce } ∧ auth.nonceCaller = nonce ∧
      auth.attributes = s.attributes ∧
      auth.hmac = P.hmac d (s.hmacKey authValue objectName) (t.commandParts cp).flatten := by
  rw [Session.commandAuth_eq hd] at h
  obtain ⟨hauth, rfl⟩ := Prod.mk.inj h
  obtain rfl := Outcome.ok.inj hauth
  refine ⟨rfl, rfl, rfl, ?_⟩
  simp [Session.commandParts]

/-- Two authorizations with one HMAC are of one command, or messages collide. -/
theorem commandAuth_binds {t t' : Session}
    {authValue authValue' objectName objectName' nonce nonce' : Bytes} {auth auth' : AuthCommand}
    (hd : Digest.ofAlg s.hashAlg = some d) (halg : s'.hashAlg = s.hashAlg)
    (hnonce : nonce.length = d.size) (hnonce' : nonce'.length = d.size)
    (hcount : names.length = names'.length) (hnames : ∀ name ∈ names, WellFormedName name)
    (hnames' : ∀ name ∈ names', WellFormedName name)
    (hcp : cpHash P s.hashAlg code names params = .ok cp)
    (hcp' : cpHash P s'.hashAlg code' names' params' = .ok cp')
    (hauth : s.commandAuth P cp authValue objectName nonce = (.ok auth, t))
    (hauth' : s'.commandAuth P cp' authValue' objectName' nonce' = (.ok auth', t'))
    (h : auth.hmac = auth'.hmac) :
    (code = code' ∧ names = names' ∧ params = params' ∧ auth.nonceCaller = auth'.nonceCaller ∧
      s.nonceTpm = s'.nonceTpm ∧ auth.attributes = auth'.attributes) ∨
    HashCollision P d (cpHashParts code names params).flatten
      (cpHashParts code' names' params').flatten ∨
    HmacCollision P d (s.hmacKey authValue objectName) (s'.hmacKey authValue' objectName')
      (t.commandParts cp).flatten (t'.commandParts cp').flatten := by
  have hd' : Digest.ofAlg s'.hashAlg = some d := halg ▸ hd
  obtain ⟨rfl, hcaller, hattributes, hhmac⟩ := of_commandAuth hd hauth
  obtain ⟨rfl, hcaller', hattributes', hhmac'⟩ := of_commandAuth hd' hauth'
  by_cases hmessage : (({ s with nonceCaller := nonce } : Session).commandParts cp).flatten =
      (({ s' with nonceCaller := nonce' } : Session).commandParts cp').flatten
  · obtain ⟨hhash, hnonces, htpm, hattrs⟩ := @commandParts_inj P d { s with nonceCaller := nonce }
      { s' with nonceCaller := nonce' } code code' names names' params params' cp cp' hd halg
      hnonce hnonce' hcp hcp' hmessage
    by_cases hpreimage : (cpHashParts code names params).flatten =
        (cpHashParts code' names' params').flatten
    · left
      obtain ⟨hcode, hsame, hparams⟩ := cpHashParts_inj hcount hnames hnames' hpreimage
      rw [hcaller, hcaller', hattributes, hattributes']
      exact ⟨hcode, hsame, hparams, hnonces, htpm, hattrs⟩
    · have hleft := Except.ok.inj ((crypto.hashParts_of_some hd _).symm.trans hcp)
      have hright := Except.ok.inj ((crypto.hashParts_of_some hd' _).symm.trans hcp')
      exact .inr (.inl ⟨hpreimage, by rw [hleft, hright, hhash]⟩)
  · exact .inr (.inr ⟨hmessage, hhmac.symm.trans (h.trans hhmac')⟩)

end Message

/-- Equal inputs of the command hash come from equal commands, and equal
messages of the command HMAC from equal hashes, nonces and attributes. So the
HMACs that two commands are sent with are equal only if the commands are, or
messages collide. -/
theorem command_hmac_binds (P : Purecrypto) :
    (∀ (code code' : UInt32) (names names' : List Bytes) (params params' : Bytes),
      names.length = names'.length → (∀ name ∈ names, WellFormedName name) →
      (∀ name ∈ names', WellFormedName name) →
      (cpHashParts code names params).flatten = (cpHashParts code' names' params').flatten →
      code = code' ∧ names = names' ∧ params = params') ∧
    (∀ (d : Digest) (s s' : Session) (code code' : UInt32) (names names' : List Bytes)
      (params params' cp cp' : Bytes),
      Digest.ofAlg s.hashAlg = some d → s'.hashAlg = s.hashAlg →
      s.nonceCaller.length = d.size → s'.nonceCaller.length = d.size →
      cpHash P s.hashAlg code names params = .ok cp →
      cpHash P s'.hashAlg code' names' params' = .ok cp' →
      (s.commandParts cp).flatten = (s'.commandParts cp').flatten →
      cp = cp' ∧ s.nonceCaller = s'.nonceCaller ∧ s.nonceTpm = s'.nonceTpm ∧
        s.attributes = s'.attributes) ∧
    ∀ (d : Digest) (s s' t t' : Session) (code code' : UInt32) (names names' : List Bytes)
      (params params' cp cp' authValue authValue' nonce nonce' : Bytes) (auth auth' : AuthCommand),
      Digest.ofAlg s.hashAlg = some d → s'.hashAlg = s.hashAlg →
      nonce.length = d.size → nonce'.length = d.size →
      names.length = names'.length → (∀ name ∈ names, WellFormedName name) →
      (∀ name ∈ names', WellFormedName name) →
      cpHash P s.hashAlg code names params = .ok cp →
      cpHash P s'.hashAlg code' names' params' = .ok cp' →
      s.commandAuth P cp authValue (objectName names) nonce = (.ok auth, t) →
      s'.commandAuth P cp' authValue' (objectName names') nonce' = (.ok auth', t') →
      auth.hmac = auth'.hmac →
      (code = code' ∧ names = names' ∧ params = params' ∧ auth.nonceCaller = auth'.nonceCaller ∧
        s.nonceTpm = s'.nonceTpm ∧ auth.attributes = auth'.attributes) ∨
      HashCollision P d (cpHashParts code names params).flatten
        (cpHashParts code' names' params').flatten ∨
      HmacCollision P d (s.hmacKey authValue (objectName names))
        (s'.hmacKey authValue' (objectName names'))
        (t.commandParts cp).flatten (t'.commandParts cp').flatten := by
  refine ⟨fun _ _ _ _ _ _ => cpHashParts_inj, fun _ _ _ _ _ _ _ _ _ _ _ => commandParts_inj, ?_⟩
  intro d s s' t t' code code' names names' params params' cp cp' authValue authValue' nonce nonce'
    auth auth' hd halg hnonce hnonce' hcount hnames hnames' hcp hcp' hauth hauth' h
  exact commandAuth_binds hd halg hnonce hnonce' hcount hnames hnames' hcp hcp' hauth hauth' h

/-- The recorded entry, as either session sends it. -/
def unsealAuth (s : Session) : AuthCommand where
  sessionHandle := s.handle
  nonceCaller := List.replicate 32 0x33
  attributes := s.attributes
  hmac := unsealCommandHmac

theorem unsealNames_wellFormed : ∀ name ∈ unsealCall.names, WellFormedName name := by
  intro name hname
  have hpermanent : permanentName ⟨0x80000000⟩ = [0x80, 0, 0, 0] := by decide
  rw [List.mem_singleton.1 hname, ← hpermanent]
  exact .permanent _ (by decide)

/-- Unsealing another object is hashed differently, unsealing once more has
another message, and the two sessions send one HMAC for one command. -/
theorem command_hmac_binds_unseal :
    (cpHashParts cc.unseal unsealCall.names []).flatten ≠
      (cpHashParts cc.unseal [permanentName ⟨0x80000001⟩] []).flatten ∧
    (({ unsealSession with nonceCaller := List.replicate 32 0x33 } : Session).commandParts
        unsealCpHash).flatten ≠
      (({ unsealSession with
          nonceCaller := List.replicate 32 0x33, nonceTpm := unsealEntry.nonceTpm } :
        Session).commandParts unsealCpHash).flatten ∧
    ((cc.unseal = cc.unseal ∧ unsealCall.names = unsealCall.names ∧ ([] : Bytes) = [] ∧
        (unsealAuth unsealSession).nonceCaller = (unsealAuth splitSession).nonceCaller ∧
        unsealSession.nonceTpm = splitSession.nonceTpm ∧
        (unsealAuth unsealSession).attributes = (unsealAuth splitSession).attributes) ∨
      HashCollision unsealCrypto .sha256 (cpHashParts cc.unseal unsealCall.names []).flatten
        (cpHashParts cc.unseal unsealCall.names []).flatten ∨
      HmacCollision unsealCrypto .sha256
        (unsealSession.hmacKey [0x70, 0x77] (objectName unsealCall.names))
        (splitSession.hmacKey [0x77] (objectName unsealCall.names))
        (({ unsealSession with nonceCaller := List.replicate 32 0x33 } : Session).commandParts
          unsealCpHash).flatten
        (({ splitSession with nonceCaller := List.replicate 32 0x33 } : Session).commandParts
          unsealCpHash).flatten) := by
  obtain ⟨hnames, hmessages, hhmacs⟩ := command_hmac_binds unsealCrypto
  refine ⟨?_, ?_, ?_⟩
  · intro h
    have hother : ∀ name ∈ [permanentName ⟨0x80000001⟩], WellFormedName name := by
      intro name hname
      rw [List.mem_singleton.1 hname]
      exact .permanent _ (by decide)
    have hsame := (hnames cc.unseal cc.unseal unsealCall.names [permanentName ⟨0x80000001⟩] [] []
      rfl unsealNames_wellFormed hother h).2.1
    exact absurd hsame (by decide)
  · intro h
    have hsame := (hmessages .sha256 { unsealSession with nonceCaller := List.replicate 32 0x33 }
      { unsealSession with
        nonceCaller := List.replicate 32 0x33, nonceTpm := unsealEntry.nonceTpm }
      cc.unseal cc.unseal unsealCall.names unsealCall.names [] [] unsealCpHash unsealCpHash rfl rfl
      (by decide) (by decide) (by decide) (by decide) h).2.2.1
    exact absurd hsame (by decide)
  · exact hhmacs .sha256 unsealSession splitSession _ _ cc.unseal cc.unseal unsealCall.names
      unsealCall.names [] [] unsealCpHash unsealCpHash [0x70, 0x77] [0x77]
      (List.replicate 32 0x33) (List.replicate 32 0x33) (unsealAuth unsealSession)
      (unsealAuth splitSession) rfl rfl (by decide) (by decide) rfl unsealNames_wellFormed
      unsealNames_wellFormed (by decide) (by decide) (by decide) (by decide) rfl

end PurecryptoTpm
