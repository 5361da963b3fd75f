import PurecryptoTpm.Response

/-!
The retry loop of `run`. A transient reply leaves the authorization and the
generator as they are, so the loop sends the frame some number of times and
ends with the interpretation of the last outcome against the authorization the
frame was built with. The rule `run_of_frame` says so for any transport;
`run_line` counts the transmissions on a `Line`.
-/

namespace PurecryptoTpm

/-- The reply's header carries the code yielded, testing or retry. -/
def TransientReply (resp : Bytes) : Prop :=
  ∃ tag size rc rest, resp = responseHeader tag size rc ++ rest ∧
    (rc = 0x908 ∨ rc = 0x90A ∨ rc = 0x922)

def TransientOutcome (outcome : Except Error Bytes) : Prop :=
  ∃ resp, outcome = .ok resp ∧ TransientReply resp

/-- What `run` makes of the outcome of a transmission. -/
def interpret (P : Purecrypto) (code : UInt32) (names : List Bytes) (respHandles : ℕ)
    (outcome : Except Error Bytes) : Exec Error Auth RawResponse := do
  let resp ← Exec.ofExcept outcome
  parseResponse P code resp names respHandles

/-! ### The classification of codes -/

/-- No format-one code is mistaken for a transient warning: stripped, it is
below all three. -/
theorem isTransient_iff (rc : TpmRc) :
    isTransient rc = true ↔ rc.raw = 0x908 ∨ rc.raw = 0x90A ∨ rc.raw = 0x922 := by
  have hwarning : ∀ raw : UInt32, (raw = 0x908 ∨ raw = 0x90A ∨ raw = 0x922) →
      (⟨raw⟩ : TpmRc).isFormatOne = false := by
    rintro raw (rfl | rfl | rfl) <;> decide
  have hunfold : isTransient rc = true ↔
      rc.base.raw = 0x908 ∨ rc.base.raw = 0x90A ∨ rc.base.raw = 0x922 := by
    simp [isTransient, or_assoc]
  rw [hunfold]
  cases hformat : rc.isFormatOne with
  | false => rw [TpmRc.base_of_formatZero hformat]
  | true =>
      have hle := TpmRc.base_raw_le hformat
      constructor
      · intro h
        have hbase : 0x908 ≤ rc.base.raw.toNat := by
          rcases h with h | h | h <;> simp [h]
        omega
      · intro h
        have hzero : rc.isFormatOne = false := hwarning rc.raw h
        simp [hformat] at hzero

theorem resubmits_iff (o : Outcome Error RawResponse) : resubmits o = true ↔
    ∃ rc, o = .err (.tpm rc) ∧ (rc.raw = 0x908 ∨ rc.raw = 0x90A ∨ rc.raw = 0x922) := by
  constructor
  · intro h
    cases o with
    | ok raw => simp [resubmits] at h
    | panic => simp [resubmits] at h
    | err e =>
        cases e with
        | tpm rc => exact ⟨rc, rfl, (isTransient_iff rc).mp h⟩
        | transport _ => simp [resubmits] at h
        | malformed _ => simp [resubmits] at h
        | protocol _ => simp [resubmits] at h
        | usage _ => simp [resubmits] at h
  · rintro ⟨rc, rfl, hrc⟩
    exact (isTransient_iff rc).mpr hrc

section Interpret

variable {P : Purecrypto} {code : UInt32} {names : List Bytes} {n : ℕ} {auth : Auth}

theorem interpret_ok (resp : Bytes) :
    interpret P code names n (.ok resp) = parseResponse P code resp names n := by
  ext auth : 1
  rw [interpret, Exec.ofExcept_ok_bind]

theorem interpret_error (e : Error) : interpret P code names n (.error e) auth = (.err e, auth) :=
  rfl

/-- The loop goes on exactly behind a transient reply. -/
theorem resubmits_parseResponse_iff (resp : Bytes) :
    resubmits (parseResponse P code resp names n auth).1 = true ↔ TransientReply resp := by
  rw [resubmits_iff]
  constructor
  · rintro ⟨rc, herr, hrc⟩
    obtain ⟨-, tag, size, rest, hresp⟩ := parseResponse_tpm_iff.mp herr
    exact ⟨tag, size, rc.raw, rest, hresp, hrc⟩
  · rintro ⟨tag, size, rc, rest, rfl, hrc⟩
    have hne : rc ≠ 0 := by rcases hrc with rfl | rfl | rfl <;> decide
    exact ⟨⟨rc⟩, by rw [parseResponse_of_rc P code names n auth tag size hne], hrc⟩

instance (resp : Bytes) : Decidable (TransientReply resp) :=
  decidable_of_iff
    (resubmits (parseResponse (.ofValues [] []) 0 resp [] 0 .none).1 = true)
    (resubmits_parseResponse_iff resp)

instance : (outcome : Except Error Bytes) → Decidable (TransientOutcome outcome)
  | .ok resp => decidable_of_iff (TransientReply resp) (by simp [TransientOutcome])
  | .error _ => isFalse (by simp [TransientOutcome])

theorem interpret_transient {outcome : Except Error Bytes} (h : TransientOutcome outcome) :
    (interpret P code names n outcome auth).2 = auth := by
  obtain ⟨resp, rfl, tag, size, rc, rest, rfl, hrc⟩ := h
  have hne : rc ≠ 0 := by rcases hrc with rfl | rfl | rfl <;> decide
  rw [interpret_ok, parseResponse_of_rc P code names n auth tag size hne]

end Interpret

/-! ### The loop over any transport -/

variable {τ : Type} [Transport τ]

/-- A number of transmissions of one frame, each answered with a transient reply. -/
inductive Resent (frame : Bytes) : ℕ → τ → τ → Prop where
  | none (t : τ) : Resent frame 0 t t
  | more {k : ℕ} {t u : τ} (h : Resent frame k t u)
      (htransient : TransientOutcome (Transport.transmit frame u).1) :
      Resent frame (k + 1) t (Transport.transmit frame u).2

variable {P : Purecrypto} {code : UInt32} {handles : List Handle} {names : List Bytes}
  {params : Bytes} {n : ℕ} {frame : Bytes}

theorem attempt_of_reply {env : Env τ} {resp : Bytes}
    (h : (Transport.transmit frame env.transport).1 = .ok resp) :
    attempt P code names n frame env =
      (.ok (parseResponse P code resp names n env.auth).1,
        { transport := (Transport.transmit frame env.transport).2
          auth := (parseResponse P code resp names n env.auth).2
          os := env.os }) := by
  have hsend : Env.onTransport (transmit frame) env =
      (.ok resp, { env with transport := (Transport.transmit frame env.transport).2 }) := by
    rw [Env.onTransport_apply, transmit_eq, h]
    rfl
  rw [attempt, Exec.bind_ok hsend]
  rfl

theorem attempt_of_error {env : Env τ} {e : Error}
    (h : (Transport.transmit frame env.transport).1 = .error e) :
    attempt P code names n frame env =
      (.err e, { env with transport := (Transport.transmit frame env.transport).2 }) := by
  have hsend : Env.onTransport (transmit frame) env =
      (.err e, { env with transport := (Transport.transmit frame env.transport).2 }) := by
    rw [Env.onTransport_apply, transmit_eq, h]
    rfl
  rw [attempt, Exec.bind_err hsend]

/-- One attempt, for any outcome of its transmission. -/
theorem attempt_resume (env : Env τ) :
    (attempt P code names n frame >>= Exec.resume) env =
      ((interpret P code names n (Transport.transmit frame env.transport).1 env.auth).1,
        { transport := (Transport.transmit frame env.transport).2
          auth := (interpret P code names n (Transport.transmit frame env.transport).1 env.auth).2
          os := env.os }) := by
  cases h : (Transport.transmit frame env.transport).1 with
  | ok resp => rw [Exec.bind_ok (attempt_of_reply h), Exec.resume_apply, interpret_ok]
  | error e => rw [Exec.bind_err (attempt_of_error h), interpret_error]

/-- A discarded attempt got a transient reply, and touched the transport only. -/
theorem attempt_discarded {env env' : Env τ} {o : Outcome Error RawResponse}
    (hround : attempt P code names n frame env = (.ok o, env')) (hagain : resubmits o = true) :
    TransientOutcome (Transport.transmit frame env.transport).1 ∧
      env' = { env with transport := (Transport.transmit frame env.transport).2 } := by
  cases h : (Transport.transmit frame env.transport).1 with
  | error e => simp [attempt_of_error h] at hround
  | ok resp =>
      rw [attempt_of_reply h] at hround
      obtain ⟨ho, henv⟩ := Prod.mk.inj hround
      obtain rfl : (parseResponse P code resp names n env.auth).1 = o := by simpa using ho
      have htransient := (resubmits_parseResponse_iff resp).mp hagain
      have hauth : (parseResponse P code resp names n env.auth).2 = env.auth := by
        rw [← interpret_ok]
        exact interpret_transient ⟨resp, rfl, htransient⟩
      refine ⟨⟨resp, rfl, htransient⟩, ?_⟩
      rw [← henv, hauth]

theorem final_iff (env : Env τ) : Exec.Final (attempt P code names n frame) resubmits env ↔
    ¬ TransientOutcome (Transport.transmit frame env.transport).1 := by
  constructor
  · rintro hfinal ⟨resp, h, htransient⟩
    have hstop := hfinal _ _ (attempt_of_reply h)
    rw [(resubmits_parseResponse_iff resp).mpr htransient] at hstop
    simp at hstop
  · intro htransient o env' hround
    refine Bool.eq_false_iff.mpr fun hagain => ?_
    exact htransient (attempt_discarded hround hagain).1

theorem run_of_frame_err {env : Env τ} {e : Error} {auth' : Auth} {os' : OsRng}
    (hframe : requestFrame P code handles names params (env.auth, env.os) =
      (.err e, auth', os')) :
    run P code handles names params n env = (.err e, { env with auth := auth', os := os' }) := by
  have hcaller : Env.onCaller (requestFrame P code handles names params) env =
      (.err e, { env with auth := auth', os := os' }) := by rw [Env.onCaller_apply, hframe]
  rw [run, Exec.bind_err hcaller]

/-- The frame is sent again behind transient replies only, and `run` ends with
the interpretation of the outcome that comes last. -/
theorem run_of_frame {env : Env τ} {auth' : Auth} {os' : OsRng}
    (hframe : requestFrame P code handles names params (env.auth, env.os) =
      (.ok frame, auth', os')) :
    ∃ k t, k ≤ maxTransientRetries ∧ Resent frame k env.transport t ∧
      (k < maxTransientRetries → ¬ TransientOutcome (Transport.transmit frame t).1) ∧
      run P code handles names params n env =
        ((interpret P code names n (Transport.transmit frame t).1 auth').1,
          { transport := (Transport.transmit frame t).2
            auth := (interpret P code names n (Transport.transmit frame t).1 auth').2
            os := os' }) := by
  have hcaller : Env.onCaller (requestFrame P code handles names params) env =
      (.ok frame, { env with auth := auth', os := os' }) := by rw [Env.onCaller_apply, hframe]
  obtain ⟨k, last, hk, hdiscards, hfinal, hretry⟩ :=
    @Exec.retry_spec _ _ _ (attempt P code names n frame) resubmits maxTransientRetries
      { env with auth := auth', os := os' }
  -- every discarded attempt extends the transmissions and keeps the rest
  have hresent : Resent frame (0 + k) env.transport last.transport ∧ last.auth = auth' ∧
      last.os = os' := by
    refine hdiscards.invariant (I := fun i e => Resent frame i env.transport e.transport ∧
      e.auth = auth' ∧ e.os = os') ?_ ⟨.none _, rfl, rfl⟩
    rintro i e e' o ⟨hresent, hauth, hos⟩ hround hagain
    obtain ⟨htransient, rfl⟩ := attempt_discarded hround hagain
    exact ⟨hresent.more htransient, hauth, hos⟩
  obtain ⟨hresent, hauth, hos⟩ := hresent
  rw [Nat.zero_add] at hresent
  refine ⟨k, last.transport, hk, hresent, fun hlt => (final_iff last).mp (hfinal hlt), ?_⟩
  rw [run, Exec.bind_ok hcaller, hretry, attempt_resume, hauth, hos]

/-- Send a frame until it is not answered with a transient reply, or the retries
are used up: the last outcome, and the transport behind it. -/
def settle (frame : Bytes) : ℕ → τ → Except Error Bytes × τ
  | 0, t => Transport.transmit frame t
  | n + 1, t =>
      if TransientOutcome (Transport.transmit frame t).1 then
        settle frame n (Transport.transmit frame t).2
      else
        Transport.transmit frame t

theorem settle_of_resent {k : ℕ} {t u : τ} (h : Resent frame k t u) (n : ℕ) :
    settle frame (k + n) t = settle frame n u := by
  induction h generalizing n with
  | none t => rw [Nat.zero_add]
  | @more k t u _ htransient ih =>
      rw [Nat.add_right_comm, Nat.add_assoc, ih, settle, if_pos htransient]

theorem settle_of_stop {n : ℕ} {t : τ}
    (h : 0 < n → ¬ TransientOutcome (Transport.transmit frame t).1) :
    settle frame n t = Transport.transmit frame t := by
  cases n with
  | zero => rfl
  | succ n => rw [settle, if_neg (h (Nat.succ_pos n))]

/-- `run` interprets the outcome on which the transmissions settle. -/
theorem run_settles {env : Env τ} {auth' : Auth} {os' : OsRng}
    (hframe : requestFrame P code handles names params (env.auth, env.os) =
      (.ok frame, auth', os')) :
    run P code handles names params n env =
      ((interpret P code names n (settle frame maxTransientRetries env.transport).1 auth').1,
        { transport := (settle frame maxTransientRetries env.transport).2
          auth := (interpret P code names n
            (settle frame maxTransientRetries env.transport).1 auth').2
          os := os' }) := by
  obtain ⟨k, t, hk, hresent, hstop, hrun⟩ :=
    @run_of_frame _ _ P code handles names params n frame env auth' os' hframe
  have hsettle : settle frame maxTransientRetries env.transport = Transport.transmit frame t := by
    rw [← Nat.add_sub_cancel' hk, settle_of_resent hresent, settle_of_stop]
    intro hpos
    exact hstop (by omega)
  rw [hrun, hsettle]

/-! ### The loop over a line -/

/-- The transmission, counted from zero, whose outcome ends the loop: the first
that is not transient, or else the one behind the last retry. -/
def StopsAt (outcome : ℕ → Except Error Bytes) (i : ℕ) : Prop :=
  i ≤ maxTransientRetries ∧ (∀ j < i, TransientOutcome (outcome j)) ∧
    (i < maxTransientRetries → ¬ TransientOutcome (outcome i))

instance (outcome : ℕ → Except Error Bytes) (i : ℕ) : Decidable (StopsAt outcome i) :=
  inferInstanceAs (Decidable (_ ∧ _ ∧ _))

theorem StopsAt.unique {outcome : ℕ → Except Error Bytes} {i j : ℕ} (hi : StopsAt outcome i)
    (hj : StopsAt outcome j) : i = j := by
  obtain ⟨hi_le, hi_before, hi_stop⟩ := hi
  obtain ⟨hj_le, hj_before, hj_stop⟩ := hj
  rcases Nat.lt_trichotomy i j with hlt | heq | hgt
  · exact absurd (hj_before i hlt) (hi_stop (by omega))
  · exact heq
  · exact absurd (hi_before j hgt) (hj_stop (by omega))

theorem resent_line {k : ℕ} {line t : Line} (h : Resent frame k line t) :
    t = line.pushes k frame ∧ ∀ j < k, TransientOutcome (line.outcome j) := by
  induction h with
  | none line => exact ⟨(line.pushes_zero frame).symm, fun j hj => absurd hj (Nat.not_lt_zero j)⟩
  | @more k line t _ htransient ih =>
      obtain ⟨rfl, hbefore⟩ := ih
      rw [Line.transmit_line, Line.outcome_pushes, Nat.add_zero] at htransient
      refine ⟨by rw [Line.transmit_line, Line.push_pushes], fun j hj => ?_⟩
      rcases Nat.lt_succ_iff_lt_or_eq.mp hj with hlt | rfl
      · exact hbefore j hlt
      · exact htransient

theorem run_line (line : Line) {auth auth' : Auth} {os os' : OsRng}
    (hframe : requestFrame P code handles names params (auth, os) = (.ok frame, auth', os')) :
    ∃ i, StopsAt line.outcome i ∧ run P code handles names params n ⟨line, auth, os⟩ =
      ((interpret P code names n (line.outcome i) auth').1,
        ⟨line.pushes (i + 1) frame, (interpret P code names n (line.outcome i) auth').2, os'⟩) := by
  have hspec := @run_of_frame Line _ P code handles names params n frame ⟨line, auth, os⟩ auth'
    os' hframe
  obtain ⟨i, t, hle, hresent, hstop, hrun⟩ := hspec
  obtain ⟨rfl, hbefore⟩ := resent_line hresent
  rw [Line.transmit_line, Line.outcome_pushes, Nat.add_zero] at hstop hrun
  rw [Line.push_pushes] at hrun
  exact ⟨i, ⟨hle, hbefore, hstop⟩, hrun⟩

/-- Once the frame is built, `run` transmits it until the first outcome that is
not a transient reply, at most thirteen times, and returns what it makes of the
last outcome against the authorization the frame left behind. -/
theorem run_resubmits (P : Purecrypto) (code : UInt32) (handles : List Handle)
    (names : List Bytes) (params : Bytes) (respHandles : ℕ) (line : Line) (auth auth' : Auth)
    (os os' : OsRng) (frame : Bytes)
    (hframe : requestFrame P code handles names params (auth, os) = (.ok frame, auth', os')) :
    ∃ i, StopsAt line.outcome i ∧ (∀ j, StopsAt line.outcome j → j = i) ∧
      run P code handles names params respHandles ⟨line, auth, os⟩ =
        ((interpret P code names respHandles (line.outcome i) auth').1,
          { transport :=
              { line with sent := line.sent ++ List.replicate (i + 1) frame }
            auth := (interpret P code names respHandles (line.outcome i) auth').2
            os := os' }) ∧
      (∀ j < i, (interpret P code names respHandles (line.outcome j) auth').2 = auth') ∧
      (TransientOutcome (line.outcome i) → i = maxTransientRetries ∧
        ∀ tag size rc rest, line.outcome i = .ok (responseHeader tag size rc ++ rest) →
          (run P code handles names params respHandles ⟨line, auth, os⟩).1 =
            .err (.tpm ⟨rc⟩)) := by
  obtain ⟨i, hstops, hrun⟩ := run_line (n := respHandles) line hframe
  refine ⟨i, hstops, fun j hj => hj.unique hstops, hrun,
    fun j hj => interpret_transient (hstops.2.1 j hj), fun htransient => ⟨?_, ?_⟩⟩
  · have hle := hstops.1
    have hstop := hstops.2.2
    by_contra hne
    exact hstop (by omega) htransient
  · intro tag size rc rest hlast
    obtain ⟨resp, hresp, tag', size', rc', rest', hreply, hrc'⟩ := htransient
    obtain rfl : resp = responseHeader tag size rc ++ rest := by
      simpa [hlast] using hresp.symm
    have hne : rc ≠ 0 := by
      rw [(responseHeader_inj hreply).2.2.1]
      rcases hrc' with rfl | rfl | rfl <;> decide
    rw [hrun, hlast, interpret_ok,
      parseResponse_of_rc P code names respHandles auth' tag size hne]

/-- Two random bytes from a TPM that first answers with the retry warning. -/
def retryingLine : Line where
  outcomes i :=
    match i with
    | 0 => .ok [0x80, 0x01, 0, 0, 0, 10, 0, 0, 0x09, 0x22]
    | _ => .ok [0x80, 0x01, 0, 0, 0, 14, 0, 0, 0, 0, 0, 2, 0xAB, 0xCD]
  sent := []

/-- The command is sent twice and the second reply is returned. -/
theorem run_resubmits_getRandom :
    (run (.ofValues [] []) 0x17B [] [] [0, 2] 0 ⟨retryingLine, .none, ⟨fun _ => 0⟩⟩).1 =
        .ok { handles := [], params := [0, 2, 0xAB, 0xCD] } ∧
      (run (.ofValues [] []) 0x17B [] [] [0, 2] 0
          ⟨retryingLine, .none, ⟨fun _ => 0⟩⟩).2.transport.sent =
        [[0x80, 0x01, 0, 0, 0, 12, 0, 0, 0x01, 0x7B, 0, 2],
          [0x80, 0x01, 0, 0, 0, 12, 0, 0, 0x01, 0x7B, 0, 2]] := by
  obtain ⟨i, -, hunique, hrun, -⟩ := run_resubmits (.ofValues [] []) 0x17B [] [] [0, 2] 0
    retryingLine .none .none ⟨fun _ => 0⟩ ⟨fun _ => 0⟩ _ requestFrame_none
  obtain rfl := hunique 1 (by decide)
  rw [hrun]
  exact ⟨by decide, by decide⟩

end PurecryptoTpm
