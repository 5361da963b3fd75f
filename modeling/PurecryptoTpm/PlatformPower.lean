import PurecryptoTpm.MssimRefinement

/-!
The order of power and NV storage on connections that may be lost anywhere. A
platform is not told that NV storage is on unless it has just accepted that
power is, whatever was done with the transport. The invariant of a run is the
stage of the platform's connection, with the signals that got through.
-/

namespace PurecryptoTpm

open Exec

/-! ### A platform on a connection that may be lost -/

namespace Platform

variable (P : Platform) {signals : List UInt32} {code : UInt32}

/-- What is asked of a platform has four bytes. -/
def Asked (q : Bytes) : Prop := q.length = 4

/-- The front of a signal is none yet. -/
theorem receivedSignals_append (h : Signals signals) {tail : Bytes} (hshort : tail.length < 4) :
    receivedSignals (sent signals ++ tail) = signals := by
  rw [receivedSignals, sent, all_framesOf_append h.fits hshort, List.filterMap_map]
  exact List.filterMap_some

/-- What a connection at some stage has brought to the platform. -/
theorem receivedSignals_stage {p : TcpStream} (h : Signals signals)
    (hstage : p.Stage Asked (sent signals)) : receivedSignals p.written = signals := by
  have hwhole := receivedSignals_append h (by decide : ([] : Bytes).length < 4)
  rw [List.append_nil] at hwhole
  cases hstage with
  | settled hsettled =>
      have hwritten : p.written = sent signals := congrArg Socket.written hsettled
      rw [hwritten, hwhole]
  | deaf hwritten hended => rw [hwritten, hwhole]
  | mute q tail hasked hfront hpart hwritten hended =>
      rw [hwritten, receivedSignals_append h]
      have hle := hfront.length_le
      have hne : tail.length ≠ q.length := fun heq => hpart (hfront.eq_of_length heq)
      have hasked : q.length = 4 := hasked
      omega

/-- A signal on a connection at any stage. -/
theorem signal_stage {p : TcpStream} (hanswer : p.answer = P.output)
    (hstage : p.Stage Asked (sent signals)) (h : Signals (signals ++ [code])) :
    signal code p = (Mssim.accepted code (P (signals ++ [code])),
        p.settledAt (sent (signals ++ [code]))) ∨
      ∃ e p', signal code p = (.err e, p') ∧ p'.answer = P.output ∧
        (p'.Stage Asked (sent signals) ∨ p'.Stage Asked (sent (signals ++ [code]))) := by
  have hsnoc := P.output_snoc h
  rw [← hanswer] at hsnoc
  rcases hstage.exchange (writeU32_writes code) (show (toBeBytes code).length = 4 by simp)
    (toBeBytes_uint32_ne_nil code) (answered_reads code (P (signals ++ [code])))
    (toBeBytes_uint32_ne_nil _) hsnoc with hok | ⟨e, p', herr, hsame, hnext⟩
  · rw [← sent_snoc] at hok
    exact .inl hok
  · rw [← sent_snoc] at hnext
    exact .inr ⟨e, p', herr, hsame.trans hanswer, hnext⟩

end Platform

/-! ### Power before NV storage -/

/-- NV storage is signalled only where power was signalled just before, and accepted. -/
def NvAfterPower (P : Platform) (signals : List UInt32) : Prop :=
  ∀ pre post, signals = pre ++ tpmSignalNvOn :: post →
    ∃ pre', pre = pre' ++ [tpmSignalPowerOn] ∧ P pre = 0

namespace NvAfterPower

variable {P : Platform} {signals : List UInt32}

theorem snoc (h : NvAfterPower P signals) {code : UInt32}
    (hcode : code = tpmSignalNvOn →
      ∃ pre', signals = pre' ++ [tpmSignalPowerOn] ∧ P signals = 0) :
    NvAfterPower P (signals ++ [code]) := by
  intro pre post hsplit
  rcases List.eq_nil_or_concat post with rfl | ⟨post', last, rfl⟩
  · obtain ⟨rfl, hlast⟩ := List.append_inj' hsplit rfl
    exact hcode (List.singleton_inj.1 hlast)
  · rw [List.concat_eq_append, ← List.cons_append, ← List.append_assoc] at hsplit
    obtain ⟨hsignals, -⟩ := List.append_inj' hsplit rfl
    exact h pre post' hsignals

theorem power (h : NvAfterPower P signals) : NvAfterPower P (signals ++ [tpmSignalPowerOn]) :=
  h.snoc fun hcode => absurd hcode (by decide)

theorem nv (h : NvAfterPower P signals) (haccepted : P (signals ++ [tpmSignalPowerOn]) = 0) :
    NvAfterPower P (signals ++ [tpmSignalPowerOn] ++ [tpmSignalNvOn]) :=
  h.power.snoc fun _ => ⟨signals, rfl, haccepted⟩

end NvAfterPower

/-- The transport with a platform that has received these signals. -/
structure Linked (P : Platform) (signals : List UInt32) (t : MssimTransport) : Prop where
  codes : Platform.Signals signals
  socket : ∃ p, t.platform = some p ∧ p.answer = P.output ∧
    p.Stage Platform.Asked (Platform.sent signals)

section Lost

variable {P : Platform} {signals : List UInt32} {t : MssimTransport}

theorem Linked.received (h : Linked P signals t) {p : TcpStream} (hp : t.platform = some p) :
    receivedSignals p.written = signals := by
  obtain ⟨p', hp', -, hstage⟩ := h.socket
  obtain rfl := Option.some_inj.1 (hp.symm.trans hp')
  exact Platform.receivedSignals_stage h.codes hstage

/-- A signal is accepted, or refused, or lost on one of its two ways. -/
theorem Linked.platformSignal (h : Linked P signals t) (code : UInt32)
    (hcode : code ≠ tpmSendCommand) :
    (∃ t', MssimTransport.platformSignal code t =
        (Mssim.accepted code (P (signals ++ [code])), t') ∧ Linked P (signals ++ [code]) t') ∨
      ∃ e t', MssimTransport.platformSignal code t = (.err e, t') ∧
        (Linked P signals t' ∨ Linked P (signals ++ [code]) t') := by
  obtain ⟨p, hp, hanswer, hstage⟩ := h.socket
  have hsnoc := h.codes.snoc hcode
  have hstep := MssimTransport.platformSignal_some hp code
  rcases P.signal_stage hanswer hstage hsnoc with
    hanswered | ⟨e, p', hlost, hanswer', hstage' | hstage'⟩
  · rw [hanswered] at hstep
    exact .inl ⟨_, hstep, hsnoc, _, rfl, hanswer, .settled rfl⟩
  · rw [hlost] at hstep
    exact .inr ⟨e, _, hstep, .inl ⟨h.codes, p', rfl, hanswer', hstage'⟩⟩
  · rw [hlost] at hstep
    exact .inr ⟨e, _, hstep, .inr ⟨hsnoc, p', rfl, hanswer', hstage'⟩⟩

/-- What `power_on` does: it signals NV storage if power is accepted, and
returns if that is accepted too. -/
theorem Linked.powerOn (h : Linked P signals t) (hnv : NvAfterPower P signals) :
    ∃ signals', Linked P signals' (MssimTransport.powerOn t).2 ∧ NvAfterPower P signals' ∧
      ((MssimTransport.powerOn t).1 = .ok () →
        signals' = signals ++ [tpmSignalPowerOn] ++ [tpmSignalNvOn] ∧
          P (signals ++ [tpmSignalPowerOn]) = 0 ∧ P signals' = 0) := by
  rcases h.platformSignal tpmSignalPowerOn (by decide) with
    ⟨t₁, hpower, hlinked⟩ | ⟨e, t₁, hlost, hlinked⟩
  · by_cases hrc : P (signals ++ [tpmSignalPowerOn]) = 0
    · rw [Mssim.accepted, if_pos hrc] at hpower
      rw [MssimTransport.powerOn, bind_ok hpower]
      rcases hlinked.platformSignal tpmSignalNvOn (by decide) with
        ⟨t₂, hnvOn, hlinked'⟩ | ⟨e, t₂, hlost, hlinked'⟩
      · refine ⟨_, ?_, hnv.nv hrc, ?_⟩
        · rw [bind_snd (fun _ _ => rfl), hnvOn]
          exact hlinked'
        · intro hok
          by_cases hrc' : P (signals ++ [tpmSignalPowerOn] ++ [tpmSignalNvOn]) = 0
          · exact ⟨rfl, hrc, hrc'⟩
          · rw [Mssim.accepted, if_neg hrc'] at hnvOn
            rw [bind_err hnvOn] at hok
            cases hok
      · rw [bind_err hlost]
        rcases hlinked' with hlinked' | hlinked'
        · exact ⟨_, hlinked', hnv.power, by simp⟩
        · exact ⟨_, hlinked', hnv.nv hrc, by simp⟩
    · rw [Mssim.accepted, if_neg hrc] at hpower
      rw [MssimTransport.powerOn, bind_err hpower]
      exact ⟨_, hlinked, hnv.power, by simp⟩
  · rw [MssimTransport.powerOn, bind_err hlost]
    rcases hlinked with hlinked | hlinked
    · exact ⟨_, hlinked, hnv, by simp⟩
    · exact ⟨_, hlinked, hnv.power, by simp⟩

/-- Some signals that a platform can have received by now. -/
def Powered (P : Platform) (t : MssimTransport) : Prop :=
  ∃ signals, Linked P signals t ∧ NvAfterPower P signals

theorem perform_powered (op : Operation) (h : Powered P t) :
    Powered P (MssimTransport.perform op t).2 := by
  obtain ⟨signals, hlinked, hnv⟩ := h
  cases op with
  | transmit command =>
      rw [MssimTransport.perform, bind_snd (fun _ _ => rfl)]
      exact ⟨signals, ⟨hlinked.codes, hlinked.socket⟩, hnv⟩
  | setLocality locality => exact ⟨signals, ⟨hlinked.codes, hlinked.socket⟩, hnv⟩
  | powerOn =>
      obtain ⟨signals', hlinked', hnv', -⟩ := hlinked.powerOn hnv
      rw [MssimTransport.perform, bind_snd (fun _ _ => rfl)]
      exact ⟨signals', hlinked', hnv'⟩
  | sessionEnd =>
      rw [MssimTransport.perform, bind_snd (fun _ _ => rfl)]
      exact ⟨signals, ⟨hlinked.codes, hlinked.socket⟩, hnv⟩

end Lost

/-- Any sequence of operations, wherever either connection is lost: the platform
has not been told of NV storage but where it had just accepted power, and if
`power_on` returns next, then it has received and accepted both signals. -/
theorem platform_powered (P : Platform) (cmd : TcpStream) (sendLimit recvLimit : Option ℕ)
    (ops : List Operation) :
    ∃ p, (each MssimTransport.perform ops
        (.connectMssim cmd (P.connect sendLimit recvLimit))).2.platform = some p ∧
      NvAfterPower P (receivedSignals p.written) ∧
      ∀ t', MssimTransport.powerOn (each MssimTransport.perform ops
          (.connectMssim cmd (P.connect sendLimit recvLimit))).2 = (.ok (), t') →
        ∃ p', t'.platform = some p' ∧
          receivedSignals p'.written =
            receivedSignals p.written ++ [tpmSignalPowerOn] ++ [tpmSignalNvOn] ∧
          P (receivedSignals p.written ++ [tpmSignalPowerOn]) = 0 ∧
          P (receivedSignals p'.written) = 0 := by
  have hstart : Powered P (.connectMssim cmd (P.connect sendLimit recvLimit)) := by
    refine ⟨[], ⟨Platform.signals_nil, _, rfl, rfl, .settled (P.connect_settled ..)⟩, ?_⟩
    intro pre post hsplit
    simp at hsplit
  obtain ⟨signals, hlinked, hnv⟩ := each_keeps (fun op _ => perform_powered op) ops hstart
  obtain ⟨p, hp, hsocket⟩ := hlinked.socket
  have hreceived := hlinked.received hp
  refine ⟨p, hp, hreceived ▸ hnv, ?_⟩
  intro t' hok
  obtain ⟨signals', hlinked', -, haccepted⟩ := hlinked.powerOn hnv
  rw [hok] at hlinked' haccepted
  obtain ⟨rfl, hpower, hnvOn⟩ := haccepted rfl
  obtain ⟨p', hp', -⟩ := hlinked'.socket
  have hreceived' := hlinked'.received hp'
  rw [hreceived]
  exact ⟨p', hp', hreceived', hpower, hreceived' ▸ hnvOn⟩

end PurecryptoTpm
