import PurecryptoTpm.Resubmission

/-!
The command grammar, from the other end of the line. `decodeCommand` takes a
frame apart knowing nothing but how many handles each command code has. It
accepts exactly the encodings of well-formed commands, so a frame has at most
one reading, and every frame `run` transmits reads as the command it was built
from.
-/

namespace PurecryptoTpm

/-- A command as it is read off a frame. -/
structure Command where
  tag : UInt16
  size : UInt32
  code : UInt32
  handles : List Handle
  /-- The size of the authorization area and the entry that fills it. -/
  area : Option (UInt32 × AuthCommand)
  params : Bytes
  deriving DecidableEq

def readCommandEntry : Exec Error Reader AuthCommand := do
  let sessionHandle ← unmarshal
  let nonceCaller ← Reader.tpm2b
  let attributes ← Reader.u8
  let hmac ← Reader.tpm2b
  pure
    { sessionHandle := sessionHandle
      nonceCaller := nonceCaller
      attributes := ⟨attributes⟩
      hmac := hmac }

/-- Read one value off the whole of a string. -/
def readWhole {α : Type} (p : Exec Error Reader α) (b : Bytes) : Except Error α :=
  match p (Reader.new b) with
  | (.ok a, r) =>
      if r.pos = b.length then .ok a else .error (.malformed "bytes behind the value")
  | (.err e, _) => .error e
  | (.panic, _) => .error (.malformed "unreadable")

def readCommand (handleCount : UInt32 → ℕ) : Exec Error Reader Command := do
  let tag ← Reader.u16
  let size ← Reader.u32
  let code ← Reader.u32
  let handles ← unmarshalHandles (handleCount code)
  if tag = st.sessions then do
    let areaSize ← Reader.u32
    let area ← Reader.take areaSize.toNat
    let entry ← Exec.ofExcept (readWhole readCommandEntry area)
    let params ← Reader.takeRemaining
    pure { tag, size, code, handles, area := some (areaSize, entry), params }
  else if tag = st.noSessions then do
    let params ← Reader.takeRemaining
    pure { tag, size, code, handles, area := none, params }
  else
    Exec.throw (.protocol "unexpected tag")

/-- The one command a frame stands for. -/
def decodeCommand (handleCount : UInt32 → ℕ) (frame : Bytes) : Option Command :=
  match (readCommand handleCount (Reader.new frame)).1 with
  | .ok cmd => if cmd.size.toNat = frame.length then some cmd else none
  | _ => none

/-! ### What the decoder accepts -/

namespace Command

def encode (cmd : Command) : Bytes :=
  toBeBytes cmd.tag ++ toBeBytes cmd.size ++ toBeBytes cmd.code ++ handleArea cmd.handles ++
    (match cmd.area with
      | some (areaSize, entry) => toBeBytes areaSize ++ commandEntry entry
      | none => []) ++ cmd.params

/-- The handles are as many as the code has, the tag says whether there is an
area, and the size of the area is that of its entry. -/
structure WellFormed (handleCount : UInt32 → ℕ) (cmd : Command) : Prop where
  count : cmd.handles.length = handleCount cmd.code
  bare : cmd.area = none → cmd.tag = st.noSessions
  authorized : ∀ areaSize entry, cmd.area = some (areaSize, entry) → cmd.tag = st.sessions ∧
    areaSize.toNat = (commandEntry entry).length ∧
    entry.nonceCaller.length < 65536 ∧ entry.hmac.length < 65536

end Command

theorem readCommandEntry_parses : Parses Reader.between Malformed readCommandEntry
    (fun entry w => entry.nonceCaller.length < 65536 ∧ entry.hmac.length < 65536 ∧
      w = commandEntry entry) := by
  refine (Reader.handle_parses.bind fun handle => Reader.tpm2b_parses.bind fun nonce =>
    Reader.u8_parses.bind fun attributes => Reader.tpm2b_parses.bind fun hmac =>
      Parses.pure (AuthCommand.mk handle nonce ⟨attributes⟩ hmac)).congr fun entry w => ?_
  constructor
  · rintro ⟨handle, _, _, rfl, ⟨nonce, _, _, ⟨hnonce, rfl⟩, ⟨attributes, _, _, rfl,
      ⟨hmac, _, _, ⟨hhmac, rfl⟩, ⟨rfl, rfl⟩, rfl⟩, rfl⟩, rfl⟩, rfl⟩
    refine ⟨hnonce, hhmac, ?_⟩
    simp [commandEntry, toBeBytes_uint8]
  · rintro ⟨hnonce, hhmac, rfl⟩
    refine ⟨entry.sessionHandle, _, _, rfl, ⟨entry.nonceCaller, _, _, ⟨hnonce, rfl⟩,
      ⟨entry.attributes.raw, _, _, rfl, ⟨entry.hmac, _, [], ⟨hhmac, rfl⟩, ⟨rfl, rfl⟩, rfl⟩,
        rfl⟩, rfl⟩, ?_⟩
    simp [commandEntry, toBeBytes_uint8]

theorem readWhole_ok_iff {α : Type} {p : Exec Error Reader α} {E : Format UInt8 α}
    (h : Parses Reader.between Malformed p E) (b : Bytes) (a : α) :
    readWhole p b = .ok a ↔ E a b := by
  rw [readWhole, Reader.new_eq_between]
  constructor
  · intro hread
    rcases h.cases [] b with ⟨a', w, post, hE, rfl, hok⟩ | ⟨e, _, _, -, -, herr⟩
    · rw [hok] at hread
      simp only [List.nil_append, Reader.between, List.length_append, left_eq_add,
        List.length_eq_zero_iff] at hread
      split at hread
      · obtain rfl : a' = a := by simpa using hread
        subst post
        rwa [List.append_nil]
      · simp at hread
    · rw [herr] at hread
      simp at hread
  · intro hE
    have hok := h.complete hE [] []
    rw [List.append_nil] at hok
    rw [hok]
    simp [Reader.between]

theorem readCommand_eq_ok {handleCount : UInt32 → ℕ} {frame : Bytes} {cmd : Command} {r : Reader}
    (h : readCommand handleCount (Reader.new frame) = (.ok cmd, r)) :
    cmd.WellFormed handleCount ∧ frame = cmd.encode := by
  rw [readCommand, Reader.new_eq_between, Reader.u16_parses.bind_ok_iff] at h
  obtain ⟨tag, _, post, rfl, hframe, h⟩ := h
  rw [Reader.u32_parses.bind_ok_iff] at h
  obtain ⟨size, _, post, rfl, rfl, h⟩ := h
  rw [Reader.u32_parses.bind_ok_iff] at h
  obtain ⟨code, _, post, rfl, rfl, h⟩ := h
  rw [(Reader.unmarshalHandles_parses (handleCount code)).bind_ok_iff] at h
  obtain ⟨handles, _, post, ⟨hcount, rfl⟩, rfl, h⟩ := h
  -- the tag decides whether an area stands between the handles and the parameters
  rcases eq_or_ne tag st.sessions with rfl | hsessions
  · rw [if_pos rfl, Reader.u32_parses.bind_ok_iff] at h
    obtain ⟨areaSize, _, post, rfl, rfl, h⟩ := h
    rw [(Reader.take_parses areaSize.toNat).bind_ok_iff] at h
    obtain ⟨_, area, post, ⟨rfl, hlen⟩, rfl, h⟩ := h
    cases hentry : readWhole readCommandEntry area with
    | error e =>
        rw [hentry, Exec.ofExcept_error_bind] at h
        simp at h
    | ok entry =>
        rw [hentry, Exec.ofExcept_ok_bind, Exec.bind_ok (Reader.takeRemaining_between _ _)] at h
        obtain rfl : _ = cmd := by simpa using congrArg Prod.fst h
        obtain ⟨hnonce, hhmac, rfl⟩ := (readWhole_ok_iff readCommandEntry_parses _ _).mp hentry
        refine ⟨⟨hcount, by simp, ?_⟩, ?_⟩
        · rintro _ _ ⟨rfl, rfl⟩
          exact ⟨rfl, hlen.symm, hnonce, hhmac⟩
        · rw [hframe]
          simp [Command.encode]
  · rw [if_neg hsessions] at h
    rcases eq_or_ne tag st.noSessions with rfl | hnone
    · rw [if_pos rfl, Exec.bind_ok (Reader.takeRemaining_between _ _)] at h
      obtain rfl : _ = cmd := by simpa using congrArg Prod.fst h
      refine ⟨⟨hcount, fun _ => rfl, by simp⟩, ?_⟩
      rw [hframe]
      simp [Command.encode]
    · rw [if_neg hnone, Exec.throw_apply] at h
      simp at h

theorem readCommand_encode {handleCount : UInt32 → ℕ} {cmd : Command}
    (h : cmd.WellFormed handleCount) :
    (readCommand handleCount (Reader.new cmd.encode)).1 = .ok cmd := by
  obtain ⟨tag, size, code, handles, area, params⟩ := cmd
  obtain ⟨hcount, hbare, hauthorized⟩ := h
  cases area with
  | none =>
      obtain rfl := hbare rfl
      simp only [Command.encode, List.append_assoc, List.nil_append]
      rw [readCommand, Reader.new_eq_between, Reader.u16_parses.bind_complete rfl,
        Reader.u32_parses.bind_complete rfl, Reader.u32_parses.bind_complete rfl,
        (Reader.unmarshalHandles_parses _).bind_complete ⟨hcount, rfl⟩, if_neg (by decide),
        if_pos rfl, Exec.bind_ok (Reader.takeRemaining_between _ _)]
      rfl
  | some area =>
      obtain ⟨areaSize, entry⟩ := area
      obtain ⟨rfl, hlen, hnonce, hhmac⟩ := hauthorized areaSize entry rfl
      have hentry : readWhole readCommandEntry (commandEntry entry) = .ok entry :=
        (readWhole_ok_iff readCommandEntry_parses _ _).mpr ⟨hnonce, hhmac, rfl⟩
      simp only [Command.encode, List.append_assoc]
      rw [readCommand, Reader.new_eq_between, Reader.u16_parses.bind_complete rfl,
        Reader.u32_parses.bind_complete rfl, Reader.u32_parses.bind_complete rfl,
        (Reader.unmarshalHandles_parses _).bind_complete ⟨hcount, rfl⟩, if_pos rfl,
        Reader.u32_parses.bind_complete rfl,
        (Reader.take_parses _).bind_complete ⟨rfl, hlen.symm⟩, hentry, Exec.ofExcept_ok_bind,
        Exec.bind_ok (Reader.takeRemaining_between _ _)]
      rfl

/-- A frame decodes to a command exactly if it is the encoding of that command
and the size field is right. -/
theorem decodeCommand_eq_some_iff {handleCount : UInt32 → ℕ} {frame : Bytes} {cmd : Command} :
    decodeCommand handleCount frame = some cmd ↔
      cmd.WellFormed handleCount ∧ cmd.size.toNat = frame.length ∧ frame = cmd.encode := by
  constructor
  · intro h
    rw [decodeCommand] at h
    rcases hread : readCommand handleCount (Reader.new frame) with ⟨o, r⟩
    rw [hread] at h
    cases o with
    | ok c =>
        simp only [Option.ite_none_right_eq_some, Option.some.injEq] at h
        obtain ⟨hsize, rfl⟩ := h
        obtain ⟨hwf, hframe⟩ := readCommand_eq_ok hread
        exact ⟨hwf, hsize, hframe⟩
    | err e => simp at h
    | panic => simp at h
  · rintro ⟨hwf, hsize, rfl⟩
    rw [decodeCommand, readCommand_encode hwf]
    simp [hsize]

/-! ### The frames of `run` -/

/-- The authorization area that belongs to an authorization: none, the
password's entry, or what `command_auth` returns, behind the entry's size. -/
def Auth.Area (P : Purecrypto) (code : UInt32) (names : List Bytes) (params : Bytes)
    (os : OsRng) (area : Option (UInt32 × AuthCommand)) : Auth → Prop
  | none => area = .none
  | password pw => ∃ areaSize, area = some (areaSize, passwordEntry pw) ∧
      areaSize.toNat = (commandEntry (passwordEntry pw)).length
  | session s authValue => ∃ areaSize ac cp nonce, area = some (areaSize, ac) ∧
      areaSize.toNat = (commandEntry ac).length ∧
      cpHash P s.hashAlg code names params = .ok cp ∧ (sessionNonce s os).1 = .ok nonce ∧
      (s.commandAuth P cp authValue (objectName names) nonce).1 = .ok ac

variable {P : Purecrypto} {code : UInt32} {handles : List Handle} {names : List Bytes}
  {params : Bytes} {handleCount : UInt32 → ℕ}

theorem toNat_areaSize {ac : AuthCommand} (hnonce : ac.nonceCaller.length < 65536)
    (hhmac : ac.hmac.length < 65536) :
    (UInt32.ofNat (commandEntry ac).length).toNat = (commandEntry ac).length := by
  have hlt : (commandEntry ac).length < 2 ^ 32 := by
    simp only [commandEntry, List.length_append, length_toBeBytes, length_tpm2bBytes,
      size_uint32, List.length_singleton]
    omega
  exact UInt32.toNat_ofNat_of_lt' hlt

/-- The command a frame is built from. -/
def commandOf (tag : UInt16) (code : UInt32) (handles : List Handle) (entry : Option AuthCommand)
    (params : Bytes) : Command where
  tag := tag
  size := 10 + UInt32.ofNat (commandBody handles entry params).length
  code := code
  handles := handles
  area := entry.map fun ac => (UInt32.ofNat (commandEntry ac).length, ac)
  params := params

/-- The entry is there if the tag says so, and its sized fields fit. -/
def EntryFits (tag : UInt16) (entry : Option AuthCommand) : Prop :=
  (entry = none → tag = st.noSessions) ∧ ∀ ac, entry = some ac →
    tag = st.sessions ∧ ac.nonceCaller.length < 65536 ∧ ac.hmac.length < 65536

theorem EntryFits.some {ac : AuthCommand} (hnonce : ac.nonceCaller.length < 65536)
    (hhmac : ac.hmac.length < 65536) : EntryFits st.sessions (some ac) := by
  refine ⟨by simp, fun ac' hac => ?_⟩
  obtain rfl := Option.some.inj hac
  exact ⟨rfl, hnonce, hhmac⟩

theorem encode_commandOf (tag : UInt16) (entry : Option AuthCommand) :
    (commandOf tag code handles entry params).encode =
      commandFrame tag code (commandBody handles entry params) := by
  cases entry with
  | none => simp [commandOf, commandFrame, commandBody, Command.encode]
  | some ac => simp [commandOf, commandFrame, commandBody, Command.encode]

theorem wellFormed_commandOf {tag : UInt16} {entry : Option AuthCommand}
    (hcount : handles.length = handleCount code) (hentry : EntryFits tag entry) :
    (commandOf tag code handles entry params).WellFormed handleCount where
  count := hcount
  bare harea := hentry.1 (Option.map_eq_none_iff.mp harea)
  authorized areaSize ac harea := by
    obtain ⟨ac', rfl, heq⟩ := Option.map_eq_some_iff.mp harea
    obtain ⟨rfl, rfl⟩ := Prod.mk.inj heq
    obtain ⟨htag, hnonce, hhmac⟩ := hentry.2 ac' rfl
    exact ⟨htag, toNat_areaSize hnonce hhmac, hnonce, hhmac⟩

/-- A frame reads as the command it was built from, whatever its size field says. -/
theorem readCommand_commandFrame {tag : UInt16} {entry : Option AuthCommand}
    (hcount : handles.length = handleCount code) (hentry : EntryFits tag entry) :
    (readCommand handleCount (Reader.new
      (commandFrame tag code (commandBody handles entry params)))).1 =
      .ok (commandOf tag code handles entry params) := by
  rw [← encode_commandOf]
  exact readCommand_encode (wellFormed_commandOf hcount hentry)

/-- Below the wrap-around the size field is right, and the frame is accepted. -/
theorem decodeCommand_commandFrame {tag : UInt16} {entry : Option AuthCommand}
    (hcount : handles.length = handleCount code) (hentry : EntryFits tag entry)
    (hbody : (commandBody handles entry params).length < 4294967286) :
    decodeCommand handleCount (commandFrame tag code (commandBody handles entry params)) =
      some (commandOf tag code handles entry params) := by
  -- neither the cast nor the sum wraps
  have hsize : (commandOf tag code handles entry params).size.toNat =
      (commandFrame tag code (commandBody handles entry params)).length := by
    have hlt : (commandBody handles entry params).length < 2 ^ 32 := by omega
    rw [commandOf, UInt32.toNat_add, UInt32.toNat_ofNat_of_lt' hlt]
    simp only [commandFrame, List.length_append, length_toBeBytes, size_uint16, size_uint32]
    have hten : (10 : UInt32).toNat = 10 := rfl
    omega
  exact decodeCommand_eq_some_iff.mpr
    ⟨wellFormed_commandOf hcount hentry, hsize, (encode_commandOf tag entry).symm⟩

/-- What the frames of one call read as. -/
def ReadsBack (P : Purecrypto) (code : UInt32) (handles : List Handle) (names : List Bytes)
    (params : Bytes) (auth : Auth) (os : OsRng) (handleCount : UInt32 → ℕ) (frame : Bytes) :
    Prop :=
  ∃ cmd, decodeCommand handleCount frame = some cmd ∧
    cmd.tag = (if auth.usesSessionArea then st.sessions else st.noSessions) ∧
    cmd.size.toNat = frame.length ∧ cmd.code = code ∧ cmd.handles = handles ∧
    auth.Area P code names params os cmd.area ∧ cmd.params = params

/-- Whether the entry of an authorization can be built at all. -/
def Auth.Buildable : Auth → Prop
  | none => True
  | password pw => pw.length < 65536
  | session s _ => ∃ d, Digest.ofAlg s.hashAlg = some d

theorem requestFrame_of_not_buildable {auth : Auth} (h : ¬ auth.Buildable) (os : OsRng) :
    ∃ e, requestFrame P code handles names params (auth, os) = (.err e, auth, os) := by
  cases auth with
  | none => exact absurd trivial h
  | password pw => exact ⟨_, requestFrame_password_long (Nat.le_of_not_lt h)⟩
  | session s authValue =>
      have hd : Digest.ofAlg s.hashAlg = none := by
        rw [Option.eq_none_iff_forall_ne_some]
        exact fun d hd => h ⟨d, hd⟩
      exact ⟨_, requestFrame_unsupported hd⟩

theorem requestFrame_of_buildable {auth : Auth} (h : auth.Buildable) (os : OsRng) :
    ∃ frame places, requestFrame P code handles names params (auth, os) =
      (.ok frame, places) := by
  cases auth with
  | none => exact ⟨_, _, requestFrame_none⟩
  | password pw => exact ⟨_, _, requestFrame_password h⟩
  | session s authValue =>
      obtain ⟨d, hd⟩ := h
      exact ⟨_, _, requestFrame_session hd⟩

/-- An entry that can be built makes the body of the request. -/
theorem requestBody_of_buildable {auth : Auth} (h : auth.Buildable) (os : OsRng) :
    ∃ entry places, requestBody P code handles names params (auth, os) =
        (.ok (commandBody handles entry params), places) ∧
      EntryFits (if auth.usesSessionArea then st.sessions else st.noSessions) entry ∧
      auth.Area P code names params os
        (entry.map fun ac => (UInt32.ofNat (commandEntry ac).length, ac)) := by
  cases auth with
  | none => exact ⟨none, _, requestBody_none, ⟨fun _ => rfl, by simp⟩, rfl⟩
  | password pw =>
      have hnonce : (passwordEntry pw).nonceCaller.length < 65536 := Nat.zero_lt_succ _
      exact ⟨some (passwordEntry pw), _, requestBody_of_area rfl (authorizationArea_password h),
        .some hnonce h, _, rfl, toNat_areaSize hnonce h⟩
  | session s authValue =>
      obtain ⟨d, hd⟩ := h
      -- both sized fields are a digest long
      have hnonce : (sessionEntry P d s authValue code names params
          (os.drawn d.size)).nonceCaller.length < 65536 := by
        rw [sessionEntry, OsRng.length_drawn]
        exact d.size_lt
      have hhmac : (sessionEntry P d s authValue code names params
          (os.drawn d.size)).hmac.length < 65536 := by
        rw [sessionEntry, commandHmac, P.length_hmac]
        exact d.size_lt
      have hdrawn : (sessionNonce s os).1 = .ok (os.drawn d.size) := by
        rw [sessionNonce, Session.freshNonce_eq hd]
      have hauth : (s.commandAuth P (P.hash d (cpHashParts code names params).flatten) authValue
          (objectName names) (os.drawn d.size)).1 =
          .ok (sessionEntry P d s authValue code names params (os.drawn d.size)) := by
        rw [Session.commandAuth_eq hd]
        rfl
      exact ⟨some (sessionEntry P d s authValue code names params (os.drawn d.size)), _,
        requestBody_of_area rfl (authorizationArea_session hd), .some hnonce hhmac,
        _, _, _, os.drawn d.size, rfl, toNat_areaSize hnonce hhmac,
        crypto.hashParts_of_some hd _, hdrawn, hauth⟩

/-- The frame of a request reads back as the request. -/
theorem requestFrame_readsBack {auth : Auth} (hbuildable : auth.Buildable) (os : OsRng)
    (hcount : handles.length = handleCount code)
    (hbody : ∀ body places, requestBody P code handles names params (auth, os) =
      (.ok body, places) → body.length < 4294967286) :
    ∃ frame places, requestFrame P code handles names params (auth, os) = (.ok frame, places) ∧
      ReadsBack P code handles names params auth os handleCount frame := by
  obtain ⟨entry, places, hrequest, hentry, harea⟩ :=
    @requestBody_of_buildable P code handles names params auth hbuildable os
  have hcmd := decodeCommand_commandFrame hcount hentry (hbody _ _ hrequest)
  have hsize := (decodeCommand_eq_some_iff.mp hcmd).2.1
  exact ⟨_, _, requestFrame_of_body hrequest, _, hcmd, rfl, hsize, rfl, rfl, harea, rfl⟩

/-- What a frame reads as, whatever its size field says. -/
def ReadsAs (P : Purecrypto) (code : UInt32) (handles : List Handle) (names : List Bytes)
    (params : Bytes) (auth : Auth) (os : OsRng) (handleCount : UInt32 → ℕ) (frame : Bytes) :
    Prop :=
  ∃ cmd, (readCommand handleCount (Reader.new frame)).1 = .ok cmd ∧
    cmd.tag = (if auth.usesSessionArea then st.sessions else st.noSessions) ∧
    cmd.code = code ∧ cmd.handles = handles ∧
    auth.Area P code names params os cmd.area ∧ cmd.params = params

/-- However long the request is, its frame reads as the request. -/
theorem requestFrame_readsAs {auth : Auth} (hbuildable : auth.Buildable) (os : OsRng)
    (hcount : handles.length = handleCount code) :
    ∃ frame places, requestFrame P code handles names params (auth, os) = (.ok frame, places) ∧
      ReadsAs P code handles names params auth os handleCount frame := by
  obtain ⟨entry, places, hrequest, hentry, harea⟩ :=
    @requestBody_of_buildable P code handles names params auth hbuildable os
  exact ⟨_, _, requestFrame_of_body hrequest, _, readCommand_commandFrame hcount hentry, rfl, rfl,
    rfl, harea, rfl⟩

/-- Nothing is sent for an authorization whose entry cannot be built. -/
theorem run_of_not_buildable {auth : Auth} (h : ¬ auth.Buildable) (n : ℕ) (line : Line)
    (os : OsRng) : ∃ e, run P code handles names params n ⟨line, auth, os⟩ =
      (.err e, ⟨line, auth, os⟩) := by
  obtain ⟨e, herr⟩ := @requestFrame_of_not_buildable P code handles names params auth h os
  exact ⟨e, run_of_frame_err herr⟩

/-- A call that succeeds has read the reply that stops its loop. -/
theorem reading_of_run_ok {n : ℕ} {line : Line} {auth : Auth} {os : OsRng} {raw : RawResponse}
    {env : Env Line} (h : run P code handles names params n ⟨line, auth, os⟩ = (.ok raw, env)) :
    ∃ i resp reply, StopsAt line.outcome i ∧ line.outcome i = .ok resp ∧ Reading n resp reply ∧
      reply.raw = raw := by
  by_cases hbuildable : auth.Buildable
  · obtain ⟨frame, places, hframe⟩ :=
      @requestFrame_of_buildable P code handles names params auth hbuildable os
    obtain ⟨i, hstops, hrun⟩ := run_line (n := n) line hframe
    obtain ⟨hok, -⟩ := Prod.mk.inj (hrun.symm.trans h)
    cases hresp : line.outcome i with
    | error e =>
        rw [hresp, interpret_error] at hok
        simp at hok
    | ok resp =>
        rw [hresp, interpret_ok] at hok
        obtain ⟨reply, hreading, -, hraw, -⟩ := parseResponse_ok_iff.mp (Prod.ext hok rfl)
        exact ⟨i, resp, reply, hstops, hresp, hreading, hraw⟩
  · obtain ⟨e, herr⟩ := @run_of_not_buildable P code handles names params auth hbuildable n line os
    rw [herr] at h
    simp at h

/-- Without an authorization the reply only has to be read. -/
theorem run_none_ok_iff {n : ℕ} {line : Line} {os : OsRng} {raw : RawResponse} :
    (run P code handles names params n ⟨line, .none, os⟩).1 = .ok raw ↔
      ∃ i resp reply, StopsAt line.outcome i ∧ line.outcome i = .ok resp ∧
        Reading n resp reply ∧ reply.raw = raw := by
  refine ⟨fun h => reading_of_run_ok (Prod.ext h rfl), fun h => ?_⟩
  obtain ⟨i, resp, reply, hstops, hresp, hreading, rfl⟩ := h
  obtain ⟨j, hstops', hrun⟩ :=
    @run_line P code handles names params n _ line .none .none os os requestFrame_none
  obtain rfl := hstops.unique hstops'
  have hok : parseResponse P code resp names n .none = (.ok reply.raw, .none) :=
    parseResponse_ok_iff.mpr ⟨reply, hreading, trivial, rfl, rfl⟩
  rw [hrun, hresp, interpret_ok, hok]

/-- Otherwise at least one frame is sent, and all of them read back. -/
theorem run_of_buildable {auth : Auth} (hbuildable : auth.Buildable) (n : ℕ) (line : Line)
    (os : OsRng) (hcount : handles.length = handleCount code)
    (hbody : ∀ body places, requestBody P code handles names params (auth, os) =
      (.ok body, places) → body.length < 4294967286) :
    ∃ frames, frames ≠ [] ∧
      (run P code handles names params n ⟨line, auth, os⟩).2.transport.sent =
        line.sent ++ frames ∧
      ∀ frame ∈ frames, ReadsBack P code handles names params auth os handleCount frame := by
  obtain ⟨frame, places, hok, hreads⟩ := requestFrame_readsBack hbuildable os hcount hbody
  obtain ⟨i, -, hrun⟩ := run_line (n := n) line hok
  refine ⟨List.replicate (i + 1) frame, by simp, ?_, fun f hf => ?_⟩
  · rw [hrun, Line.pushes]
  · rw [List.eq_of_mem_replicate hf]
    exact hreads

/-- The frames of a call all read as its command, and there are some if any
can be built. -/
theorem run_frames_readAs (P : Purecrypto) (n : ℕ) (env : Env Line)
    (hcount : handles.length = handleCount code) :
    ∃ frames, (env.auth.Buildable → frames ≠ []) ∧
      (run P code handles names params n env).2.transport.sent = env.transport.sent ++ frames ∧
      ∀ frame ∈ frames,
        ReadsAs P code handles names params env.auth env.os handleCount frame := by
  obtain ⟨line, auth, os⟩ := env
  by_cases hbuildable : auth.Buildable
  · obtain ⟨frame, places, hok, hreads⟩ := requestFrame_readsAs hbuildable os hcount
    obtain ⟨i, -, hrun⟩ := run_line (n := n) line hok
    refine ⟨List.replicate (i + 1) frame, by simp, ?_, fun f hf => ?_⟩
    · rw [hrun, Line.pushes]
    · rw [List.eq_of_mem_replicate hf]
      exact hreads
  · obtain ⟨e, hrun⟩ := @run_of_not_buildable P code handles names params auth hbuildable n line os
    refine ⟨[], fun h => absurd h hbuildable, ?_, by simp⟩
    rw [hrun, List.append_nil]

/-- A call of `run` either fails with nothing sent, or every frame it sends
reads back as the command, its authorization entry and its parameters. A
password too long for the entry is of the first kind. -/
theorem run_frames_readBack (P : Purecrypto) (code : UInt32) (handles : List Handle)
    (names : List Bytes) (params : Bytes) (respHandles : ℕ) (line : Line) (auth : Auth)
    (os : OsRng) (handleCount : UInt32 → ℕ) (hcount : handles.length = handleCount code)
    (hbody : ∀ body places, requestBody P code handles names params (auth, os) =
      (.ok body, places) → body.length < 4294967286) :
    (((∃ e, (run P code handles names params respHandles ⟨line, auth, os⟩).1 = .err e) ∧
        (run P code handles names params respHandles ⟨line, auth, os⟩).2.transport = line) ∨
      ∃ frames, frames ≠ [] ∧
        (run P code handles names params respHandles ⟨line, auth, os⟩).2.transport.sent =
          line.sent ++ frames ∧
        ∀ frame ∈ frames, ReadsBack P code handles names params auth os handleCount frame) ∧
    ∀ pw, auth = .password pw → 65536 ≤ pw.length →
      run P code handles names params respHandles ⟨line, auth, os⟩ =
        (.err (.usage "auth value too long"), ⟨line, auth, os⟩) := by
  refine ⟨?_, ?_⟩
  · by_cases hbuildable : auth.Buildable
    · exact .inr (run_of_buildable hbuildable respHandles line os hcount hbody)
    · left
      obtain ⟨e, hrun⟩ := @run_of_not_buildable P code handles names params auth hbuildable
        respHandles line os
      rw [hrun]
      exact ⟨⟨e, rfl⟩, rfl⟩
  · rintro pw rfl hpw
    exact run_of_frame_err (requestFrame_password_long hpw)

/-- Unsealing an object under a password. -/
def passwordLine : Line where
  outcomes _ := .ok [0x80, 0x02, 0, 0, 0, 19, 0, 0, 0, 0, 0, 0, 0, 0, 0, 0, 1, 0, 0]
  sent := []

theorem run_frames_readBack_unseal :
    ∃ frames, frames ≠ [] ∧
      (run (.ofValues [] []) cc.unseal [⟨0x80000000⟩] [[0x80, 0, 0, 0]] [] 0
          ⟨passwordLine, .password [0x70, 0x77], ⟨fun _ => 0⟩⟩).2.transport.sent = frames ∧
      ∀ frame ∈ frames, ReadsBack (.ofValues [] []) cc.unseal [⟨0x80000000⟩] [[0x80, 0, 0, 0]] []
        (.password [0x70, 0x77]) ⟨fun _ => 0⟩ (fun _ => 1) frame := by
  have hpw : ([0x70, 0x77] : Bytes).length < 65536 := by decide
  obtain ⟨h, -⟩ := run_frames_readBack (.ofValues [] []) cc.unseal [⟨0x80000000⟩]
    [[0x80, 0, 0, 0]] [] 0 passwordLine (.password [0x70, 0x77]) ⟨fun _ => 0⟩ (fun _ => 1) rfl (by
      intro body places h
      rw [requestBody_of_area rfl (authorizationArea_password hpw)] at h
      obtain rfl := Outcome.ok.inj (Prod.mk.inj h).1
      decide)
  rcases h with ⟨⟨e, herr⟩, -⟩ | h
  · have hok : (run (.ofValues [] []) cc.unseal [⟨0x80000000⟩] [[0x80, 0, 0, 0]] [] 0
        ⟨passwordLine, .password [0x70, 0x77], ⟨fun _ => 0⟩⟩).1 =
        .ok { handles := [], params := [] } := by decide
    rw [hok] at herr
    simp at herr
  · exact h

end PurecryptoTpm
