import PurecryptoTpm.MssimRefinement

/-!
Connections that may be lost anywhere. Whatever operation on the transport
succeeds, succeeds with the result that it has on the simulator in messages
after the same operations. Until a connection is lost it carries the same
messages, and after that nothing that is answered succeeds on it.
-/

namespace PurecryptoTpm

open Exec

theorem Platform.signal_lost {p : TcpStream} (h : p.Lost) (code : UInt32) :
    ∃ e p', signal code p = (.err e, p') ∧ p'.Lost :=
  Socket.exchange_lost h (writeU32_writes code) (toBeBytes_uint32_ne_nil code)
    (answered_reads code 0) (toBeBytes_uint32_ne_nil 0)

/-! ### The relation -/

/-- The transport next to the simulator in messages: each connection carries
what was sent there, or it is lost. -/
structure Lossy (cuts : Cuts) (t : MssimTransport) (m : Mssim) : Prop where
  room : ∀ sent, (m.simulator sent).payload.length ≤ maxResponse
  locality : t.locality = m.locality
  fits : ∀ message ∈ m.messages, message.Fits
  data : t.cmd = (TcpStream.connect m.simulator cuts.dataSend cuts.dataRecv).boundary
    m.messages ∨ t.cmd.Lost
  signals : Platform.Signals m.signals
  platform : t.platform = m.platform.map (fun P =>
      (P.connect cuts.platformSend cuts.platformRecv).settledAt (Platform.sent m.signals)) ∨
    m.platform ≠ none ∧ ∃ p, t.platform = some p ∧ p.Lost

variable {cuts : Cuts}

theorem transmit_weakens {command : Bytes} (h : command.length < 4294967296) :
    Weakens (Lossy cuts) (MssimTransport.transmit command) (Mssim.transmit command) := by
  intro t m hlossy
  have hfits := Mssim.told_fits hlossy.fits (.command ⟨m.locality, command⟩) h
  rw [MssimTransport.transmit_apply, hlossy.locality]
  rcases hlossy.data with hdata | hlost
  · rw [hdata]
    rcases TcpStream.turn_boundary cuts.dataSend cuts.dataRecv (c := ⟨m.locality, command⟩) hfits
      (fun _ => hlossy.room _) with hturn | ⟨e, s', hturn, hlost, -⟩
    · rw [hturn]
      exact ⟨fun _ => id, { hlossy with locality := rfl, fits := hfits, data := .inl rfl }⟩
    · rw [hturn]
      exact ⟨by simp, { hlossy with locality := rfl, fits := hfits, data := .inr hlost }⟩
  · obtain ⟨e, s', hturn, hlost'⟩ := TcpStream.turn_lost hlost ⟨m.locality, command⟩
    rw [hturn]
    exact ⟨by simp, { hlossy with locality := rfl, fits := hfits, data := .inr hlost' }⟩

theorem sessionEnd_weakens :
    Weakens (Lossy cuts) MssimTransport.sessionEnd Mssim.sessionEnd := by
  intro t m hlossy
  have hfits := Mssim.told_fits hlossy.fits (.signal tpmSessionEnd)
    (show tpmSessionEnd ≠ tpmSendCommand by decide)
  refine ⟨fun _ _ => rfl, ?_⟩
  rw [MssimTransport.sessionEnd_apply]
  rcases hlossy.data with hdata | hlost
  · rw [hdata]
    rcases TcpStream.writeU32_boundary cuts.dataSend cuts.dataRecv hfits with
      hwrite | ⟨e, s', hwrite, hlost, -⟩
    · rw [hwrite]
      exact { hlossy with fits := hfits, data := .inl rfl }
    · rw [hwrite]
      exact { hlossy with fits := hfits, data := .inr hlost }
  · have hlost' := (writeU32_writes tpmSessionEnd).lost hlost (toBeBytes_uint32_ne_nil _)
    exact { hlossy with fits := hfits, data := .inr hlost' }

/-- A signal may find its connection lost. -/
theorem platformSignal_lossy {code : UInt32} (hcode : code ≠ tpmSendCommand) {t : MssimTransport}
    {m : Mssim} (h : Lossy cuts t m) :
    ((MssimTransport.platformSignal code t).1 = (Mssim.platformSignal code m).1 ∨
      ∃ e p, MssimTransport.platformSignal code t = (.err e, { t with platform := some p }) ∧
        p.Lost ∧ m.platform ≠ none) ∧
    Lossy cuts (MssimTransport.platformSignal code t).2 (Mssim.platformSignal code m).2 := by
  have hsignals := h.signals.snoc hcode
  cases hm : m.platform with
  | none =>
      have hnone : t.platform = none := by
        rcases h.platform with ht | ⟨hne, -⟩
        · rw [ht, hm, Option.map_none]
        · exact absurd hm hne
      rw [MssimTransport.platformSignal_none hnone, Mssim.platformSignal, hm]
      exact ⟨.inl rfl, h⟩
  | some P =>
      have hne : m.platform ≠ none := by simp [hm]
      have hlossy : ∀ p : TcpStream, p.Lost →
          Lossy cuts { t with platform := some p } (m.signalled code) := fun p hp =>
        { h with signals := hsignals, platform := .inr ⟨hne, p, rfl, hp⟩ }
      rw [Mssim.platformSignal, hm]
      rcases h.platform with ht | ⟨-, p, ht, hp⟩
      · rw [hm, Option.map_some] at ht
        rw [MssimTransport.platformSignal_some ht]
        rcases P.signal_settled cuts.platformSend cuts.platformRecv hsignals with
          hanswered | ⟨e, p, herr, hp, -⟩
        · rw [hanswered]
          refine ⟨.inl rfl, { h with signals := hsignals, platform := .inl ?_ }⟩
          show some _ = m.platform.map _
          rw [hm]
          rfl
        · rw [herr]
          exact ⟨.inr ⟨e, p, rfl, hp, by simp⟩, hlossy p hp⟩
      · obtain ⟨e, p', herr, hp'⟩ := Platform.signal_lost hp code
        rw [MssimTransport.platformSignal_some ht, herr]
        exact ⟨.inr ⟨e, p', rfl, hp', by simp⟩, hlossy p' hp'⟩

theorem platformSignal_weakens {code : UInt32} (hcode : code ≠ tpmSendCommand) :
    Weakens (Lossy cuts) (MssimTransport.platformSignal code) (Mssim.platformSignal code) := by
  intro t m hlossy
  obtain ⟨hsame | ⟨e, p, herr, -⟩, hlossy'⟩ := platformSignal_lossy hcode hlossy
  · exact ⟨fun _ => by rw [hsame]; exact id, hlossy'⟩
  · exact ⟨by simp [herr], hlossy'⟩

/-- A lost connection stays lost, whatever the platform is still sent. -/
theorem Lossy.signalled {t : MssimTransport} {m : Mssim} (h : Lossy cuts t m)
    (hlost : ∃ p, t.platform = some p ∧ p.Lost) {code : UInt32} (hcode : code ≠ tpmSendCommand) :
    Lossy cuts t (Mssim.platformSignal code m).2 := by
  rw [Mssim.platformSignal]
  cases hm : m.platform with
  | none => exact h
  | some P =>
      exact { h with
        signals := h.signals.snoc hcode
        platform := .inr ⟨by simp [Mssim.signalled, hm], hlost⟩ }

theorem powerOn_weakens : Weakens (Lossy cuts) MssimTransport.powerOn Mssim.powerOn := by
  refine (platformSignal_weakens (by decide)).bind
    (fun _ => (platformSignal_weakens (by decide)).map id) ?_
  intro t m a hlossy hfailed hok
  obtain ⟨hsame | ⟨e, p, herr, hlost, -⟩, hlossy'⟩ :=
    platformSignal_lossy (show tpmSignalPowerOn ≠ tpmSendCommand by decide) hlossy
  · exact absurd (hsame.trans hok) (hfailed a)
  · rw [bind_snd fun _ _ => rfl]
    exact hlossy'.signalled ⟨p, by rw [herr], hlost⟩ (by decide)

theorem perform_weakens {op : Operation} (h : op.Fits) :
    Weakens (Lossy cuts) (MssimTransport.perform op) (Mssim.perform op) := by
  cases op with
  | transmit command => exact (transmit_weakens h).map some
  | setLocality locality => exact fun t m hlossy => ⟨fun _ => id, { hlossy with locality := rfl }⟩
  | powerOn => exact powerOn_weakens.map fun _ => none
  | sessionEnd => exact sessionEnd_weakens.map fun _ => none

/-- Right after connecting. -/
theorem lossy_attach {simulator : Simulator}
    (hreply : ∀ sent, (simulator sent).payload.length ≤ maxResponse) (platform : Option Platform) :
    Lossy cuts (.attach cuts simulator platform) (.connect simulator platform) := by
  cases platform with
  | none =>
      exact ⟨hreply, rfl, by simp [Mssim.connect],
        .inl (TcpStream.connect_boundary cuts.dataSend cuts.dataRecv simulator),
        by simp [Mssim.connect], .inl rfl⟩
  | some P =>
      exact ⟨hreply, rfl, by simp [Mssim.connect],
        .inl (TcpStream.connect_boundary cuts.dataSend cuts.dataRecv simulator),
        by simp [Mssim.connect],
        .inl (congrArg some (P.connect_settled cuts.platformSend cuts.platformRecv))⟩

def switchedOn : List Operation := [.powerOn, .transmit [1], .setLocality 3, .sessionEnd]

/-- Of the same operations, the first fails on the connection that is lost. -/
example : (each MssimTransport.perform switchedOn
    (.attach ⟨none, none, none, some 4⟩ acceptsFirst (some fun _ => 0))).1 =
      [.err (.transport "failed to fill whole buffer"), .ok (some [0xAA]), .ok none, .ok none] := by
  decide +kernel

end PurecryptoTpm
