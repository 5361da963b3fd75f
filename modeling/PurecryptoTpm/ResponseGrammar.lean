import PurecryptoTpm.Response

/-!
The response grammar of a command, and how far `parse_response` implements
it. The grammar ties the tag of a reply to the authorization of its command
and ends a reply behind its authorization entry. The parser checks neither.
-/

namespace PurecryptoTpm

/-- The replies to a command that are well formed, and what they return. -/
inductive Conforms (P : Purecrypto) (code : UInt32) (names : List Bytes) (respHandles : ℕ)
    (auth : Auth) : Bytes → RawResponse → Prop where
  | bare {handles : List Handle} {params : Bytes} (harea : auth.usesSessionArea = false)
      (hcount : handles.length = respHandles)
      (hsize : (successReply st.noSessions handles params).length < 4294967296) :
      Conforms P code names respHandles auth (successReply st.noSessions handles params)
        { handles, params }
  | authorized {handles : List Handle} {params : Bytes} {entry : AuthResponse}
      (harea : auth.usesSessionArea = true) (hcount : handles.length = respHandles)
      (hfits : entry.Fits)
      (hsize : (successReply st.sessions handles (authorizedBody params entry)).length <
        4294967296)
      (haccepts : auth.Accepts P code names { raw := { handles, params }, entry := some entry }) :
      Conforms P code names respHandles auth
        (successReply st.sessions handles (authorizedBody params entry)) { handles, params }

/-- `parse_response` accepts the well-formed replies and no others, and reports
a nonzero code as such. -/
def ParsesGrammar (P : Purecrypto) (code : UInt32) (names : List Bytes) (respHandles : ℕ)
    (auth : Auth) (resp : Bytes) : Prop :=
  (∀ raw, (parseResponse P code resp names respHandles auth).1 = .ok raw ↔
    Conforms P code names respHandles auth resp raw) ∧
  ∀ tag size rc rest, rc ≠ 0 → resp = responseHeader tag size rc ++ rest →
    (parseResponse P code resp names respHandles auth).1 = .err (.tpm ⟨rc⟩)

/-- The replies that are read although they are not well formed. -/
inductive Stray (P : Purecrypto) (code : UInt32) (names : List Bytes) (respHandles : ℕ)
    (auth : Auth) : Bytes → Prop where
  /-- The tag is neither of the two, or is NO_SESSIONS for an authorized command. -/
  | tag {tag : UInt16} {handles : List Handle} {params : Bytes} (htag : tag ≠ st.sessions)
      (hexpected : tag ≠ st.noSessions ∨ auth.usesSessionArea = true)
      (hcount : handles.length = respHandles)
      (hsize : (successReply tag handles params).length < 4294967296) :
      Stray P code names respHandles auth (successReply tag handles params)
  /-- An authorization area nobody asked for. -/
  | area {handles : List Handle} {params rest : Bytes} {entry : AuthResponse}
      (harea : auth.usesSessionArea = false) (hcount : handles.length = respHandles)
      (hfits : entry.Fits)
      (hsize : (successReply st.sessions handles (authorizedBody params entry ++ rest)).length <
        4294967296) :
      Stray P code names respHandles auth
        (successReply st.sessions handles (authorizedBody params entry ++ rest))
  /-- Bytes behind the entry. -/
  | trailing {handles : List Handle} {params rest : Bytes} {entry : AuthResponse}
      (hrest : rest ≠ []) (hcount : handles.length = respHandles) (hfits : entry.Fits)
      (hsize : (successReply st.sessions handles (authorizedBody params entry ++ rest)).length <
        4294967296)
      (haccepts : auth.Accepts P code names { raw := { handles, params }, entry := some entry }) :
      Stray P code names respHandles auth
        (successReply st.sessions handles (authorizedBody params entry ++ rest))

variable {P : Purecrypto} {code : UInt32} {names : List Bytes} {n : ℕ} {auth : Auth}
  {resp : Bytes}

/-- The tag of a reply can be read off its bytes, and so can its body. -/
theorem successReply_inj {tag tag' : UInt16} {handles handles' : List Handle} {body body' : Bytes}
    (hcount : handles.length = handles'.length)
    (h : successReply tag handles body = successReply tag' handles' body') :
    tag = tag' ∧ handleArea handles = handleArea handles' ∧ body = body' := by
  simp only [successReply, List.append_assoc] at h
  obtain ⟨htag, -, -, hrest⟩ := responseHeader_inj h
  obtain ⟨harea, hbody⟩ := List.append_inj hrest (by simp [hcount])
  exact ⟨htag, harea, hbody⟩

/-- Nothing can follow a body under the SESSIONS tag and leave it a body. -/
theorem authorizedBody_rest {handles handles' : List Handle} {params params' rest : Bytes}
    {entry entry' : AuthResponse}
    (hcount : handles.length = handles'.length) (hfits : entry.Fits) (hfits' : entry'.Fits)
    (hsize : (successReply st.sessions handles (authorizedBody params entry ++ rest)).length <
      4294967296)
    (h : successReply st.sessions handles (authorizedBody params entry ++ rest) =
      successReply st.sessions handles' (authorizedBody params' entry')) : rest = [] := by
  have hsize' : (successReply st.sessions handles' (authorizedBody params' entry')).length <
      4294967296 := h ▸ hsize
  simp only [length_successReply, authorizedBody, List.length_append] at hsize hsize'
  obtain ⟨-, harea, hbody⟩ := successReply_inj hcount h
  have hunambiguous := (readBody_sessions_parses (n := handles.length)).unambiguous
    Reader.between_inj
  have hright := hunambiguous (s := rest) (t := [])
    ⟨handles, params, entry, rfl, by omega, hfits, rfl, rfl⟩
    ⟨handles', params', entry', hcount.symm, by omega, hfits', rfl, rfl⟩
    (by rw [List.append_assoc, hbody, harea, List.append_nil])
  exact hright.2.2

/-- The bytes of a well-formed reply. -/
theorem Conforms.shape {raw : RawResponse} (h : Conforms P code names n auth resp raw) :
    (auth.usesSessionArea = false ∧ ∃ handles params, handles.length = n ∧
      resp = successReply st.noSessions handles params) ∨
    (auth.usesSessionArea = true ∧ ∃ handles params entry, handles.length = n ∧
      AuthResponse.Fits entry ∧
      resp = successReply st.sessions handles (authorizedBody params entry)) := by
  cases h with
  | bare harea hcount _ => exact .inl ⟨harea, _, _, hcount, rfl⟩
  | authorized harea hcount hfits _ _ => exact .inr ⟨harea, _, _, _, hcount, hfits, rfl⟩

/-- A well-formed reply is read, and lets the authorization pass. -/
theorem Conforms.ok {raw : RawResponse} (h : Conforms P code names n auth resp raw) :
    (parseResponse P code resp names n auth).1 = .ok raw := by
  suffices hparse : ∃ auth', parseResponse P code resp names n auth = (.ok raw, auth') by
    obtain ⟨auth', hok⟩ := hparse
    rw [hok]
  cases h with
  | bare harea hcount hsize =>
      refine ⟨_, parseResponse_ok_iff.mpr ⟨_, .bare (by decide) hcount hsize, ?_, rfl, rfl⟩⟩
      cases auth with
      | none => trivial
      | password pw => simp [Auth.usesSessionArea] at harea
      | session s authValue => simp [Auth.usesSessionArea] at harea
  | @authorized handles params entry harea hcount hfits hsize haccepts =>
      have hreading : Reading n _ ⟨⟨handles, params⟩, some entry⟩ :=
        @Reading.authorized n handles params [] entry hcount hfits (by rwa [List.append_nil])
      rw [List.append_nil] at hreading
      exact ⟨_, parseResponse_ok_iff.mpr ⟨_, hreading, haccepts, rfl, rfl⟩⟩

/-- A reply that is read is well formed unless it is one of the strays. -/
theorem conforms_of_ok {raw : RawResponse} (hstray : ¬ Stray P code names n auth resp)
    (h : (parseResponse P code resp names n auth).1 = .ok raw) :
    Conforms P code names n auth resp raw := by
  obtain ⟨reply, hreading, haccepts, rfl, -⟩ := parseResponse_ok_iff.mp (Prod.ext h rfl)
  cases hreading with
  | @bare tag handles params htag hcount hsize =>
      -- the tag is the one the authorization calls for
      have hexpected : ¬ (tag ≠ st.noSessions ∨ auth.usesSessionArea = true) :=
        fun hexpected => hstray (.tag htag hexpected hcount hsize)
      simp only [not_or, ne_eq, not_not, Bool.not_eq_true] at hexpected
      obtain ⟨rfl, harea⟩ := hexpected
      exact .bare harea hcount hsize
  | @authorized handles params rest entry hcount hfits hsize =>
      have harea : auth.usesSessionArea = true := by
        refine Bool.not_eq_false _ ▸ fun harea => ?_
        exact hstray (.area harea hcount hfits hsize)
      obtain rfl : rest = [] := by
        by_contra hrest
        exact hstray (.trailing hrest hcount hfits hsize haccepts)
      rw [List.append_nil] at hsize ⊢
      exact .authorized harea hcount hfits hsize haccepts

/-- A stray is read, and is not well formed. -/
theorem Stray.ok_not_conforms (h : Stray P code names n auth resp) :
    ∃ raw, (parseResponse P code resp names n auth).1 = .ok raw ∧
      ¬ Conforms P code names n auth resp raw := by
  suffices hread : ∃ reply, Reading n resp reply ∧ auth.Accepts P code names reply ∧
      ¬ Conforms P code names n auth resp reply.raw by
    obtain ⟨reply, hreading, haccepts, hconforms⟩ := hread
    have hok := parseResponse_ok_iff.mpr ⟨reply, hreading, haccepts, rfl, rfl⟩
    exact ⟨reply.raw, by rw [hok], hconforms⟩
  cases h with
  | @tag tag handles params htag hexpected hcount hsize =>
      refine ⟨_, .bare htag hcount hsize, ?_, fun hconforms => ?_⟩
      · cases auth <;> simp [Auth.Accepts]
      rcases hconforms.shape with
        ⟨harea, handles', params', hcount', h⟩ | ⟨-, handles', params', entry', hcount', -, h⟩
      · obtain ⟨rfl, -, -⟩ := successReply_inj (hcount.trans hcount'.symm) h
        simp [harea] at hexpected
      · exact htag (successReply_inj (hcount.trans hcount'.symm) h).1
  | @area handles params rest entry harea hcount hfits hsize =>
      refine ⟨_, .authorized hcount hfits hsize, ?_, fun hconforms => ?_⟩
      · cases auth <;> simp [Auth.usesSessionArea, Auth.Accepts] at harea ⊢
      rcases hconforms.shape with ⟨-, handles', params', hcount', h⟩ | ⟨harea', -⟩
      · have htag := (successReply_inj (hcount.trans hcount'.symm) h).1
        simp [st.sessions, st.noSessions] at htag
      · simp [harea] at harea'
  | @trailing handles params rest entry hrest hcount hfits hsize haccepts =>
      refine ⟨_, .authorized hcount hfits hsize, haccepts, fun hconforms => ?_⟩
      rcases hconforms.shape with
        ⟨-, handles', params', hcount', h⟩ | ⟨-, handles', params', entry', hcount', hfits', h⟩
      · have htag := (successReply_inj (hcount.trans hcount'.symm) h).1
        simp [st.sessions, st.noSessions] at htag
      · exact hrest (authorizedBody_rest (hcount.trans hcount'.symm) hfits hfits' hsize h)

theorem Stray.not_parsesGrammar (h : Stray P code names n auth resp) :
    ¬ ParsesGrammar P code names n auth resp := by
  intro hgrammar
  obtain ⟨raw, hok, hconforms⟩ := h.ok_not_conforms
  exact hconforms ((hgrammar.1 raw).mp hok)

/-- `parse_response` implements the grammar exactly off the stray replies. -/
theorem parsesGrammar_iff (P : Purecrypto) (code : UInt32) (names : List Bytes)
    (respHandles : ℕ) (auth : Auth) (resp : Bytes) :
    ParsesGrammar P code names respHandles auth resp ↔
      ¬ Stray P code names respHandles auth resp := by
  constructor
  · intro h hstray
    exact hstray.not_parsesGrammar h
  · intro hstray
    refine ⟨fun raw => ⟨conforms_of_ok hstray, Conforms.ok⟩, ?_⟩
    rintro tag size rc rest hrc rfl
    rw [parseResponse_of_rc P code names respHandles auth tag size hrc rest]

/-- Three replies that are accepted: one under the tag 0x1234, one without an
authorization area to a password-authorized command, and one with a byte
behind its entry. -/
theorem not_parsesGrammar :
    ¬ ParsesGrammar (.ofValues [] []) 0x17B [] 0 .none
      [0x12, 0x34, 0, 0, 0, 10, 0, 0, 0, 0] ∧
    ¬ ParsesGrammar (.ofValues [] []) cc.unseal [[0x80, 0, 0, 0]] 0 (.password [0x70])
      [0x80, 0x01, 0, 0, 0, 12, 0, 0, 0, 0, 0, 0] ∧
    ¬ ParsesGrammar (.ofValues [] []) cc.unseal [[0x80, 0, 0, 0]] 0 (.password [0x70])
      [0x80, 0x02, 0, 0, 0, 20, 0, 0, 0, 0, 0, 0, 0, 0, 0, 0, 1, 0, 0, 0xFF] := by
  refine ⟨?_, ?_, ?_⟩
  · have hbytes : [0x12, 0x34, 0, 0, 0, 10, 0, 0, 0, 0] = successReply 0x1234 [] [] := by decide
    rw [hbytes]
    exact (Stray.tag (by decide) (.inl (by decide)) rfl (by decide)).not_parsesGrammar
  · have hbytes : [0x80, 0x01, 0, 0, 0, 12, 0, 0, 0, 0, 0, 0] =
        successReply st.noSessions [] [0, 0] := by decide
    rw [hbytes]
    exact (Stray.tag (by decide) (.inr rfl) rfl (by decide)).not_parsesGrammar
  · have hbytes : [0x80, 0x02, 0, 0, 0, 20, 0, 0, 0, 0, 0, 0, 0, 0, 0, 0, 1, 0, 0, 0xFF] =
        successReply st.sessions [] (authorizedBody [] ⟨[], ⟨1⟩, []⟩ ++ [0xFF]) := by decide
    rw [hbytes]
    exact (Stray.trailing (by simp) rfl (by simp [AuthResponse.Fits]) (by decide)
      (by simp [Auth.Accepts])).not_parsesGrammar

end PurecryptoTpm
