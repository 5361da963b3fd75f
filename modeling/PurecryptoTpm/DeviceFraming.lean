import PurecryptoTpm.Transport.Device

/-!
What a character device sees of a transmission. The record of every call made
of the file tells the story: a command is accepted piece by piece and in order,
and only when all of it has been accepted is there one read, whose bytes are
the response. No behaviour of the file makes a transmission skip or repeat a
byte, read early, or read twice.
-/

namespace PurecryptoTpm

/-- What became of a call made of a file. -/
inductive FileEvent where
  | wrote (bytes : Bytes)
  | flushed
  | got (bytes : Bytes)
  | failed
  deriving DecidableEq

/-- A file with a record of the calls made of it. -/
structure Logged (φ : Type) where
  file : φ
  log : List FileEvent

namespace Logged

variable {φ : Type}

/-- The file behind a call, with the call recorded. -/
def record {α : Type} (event : α → FileEvent) (f : Logged φ) (r : Except String α × φ) :
    Except String α × Logged φ :=
  match r.1 with
  | .ok a => (.ok a, { file := r.2, log := f.log ++ [event a] })
  | .error e => (.error e, { file := r.2, log := f.log ++ [.failed] })

variable [File φ]

instance : File (Logged φ) where
  write buf f := f.record (fun n => .wrote (buf.take n)) (File.write buf f.file)
  flush f := f.record (fun _ => .flushed) (File.flush f.file)
  read n f := f.record .got (File.read n f.file)
  write_le buf f n h := by
    cases hw : (File.write buf f.file).1 with
    | ok m =>
        rw [record, hw] at h
        obtain rfl : m = n := Except.ok.inj h
        exact File.write_le buf f.file m hw
    | error e => simp [record, hw] at h
  read_le n f b h := by
    cases hr : (File.read n f.file).1 with
    | ok b' =>
        rw [record, hr] at h
        obtain rfl : b' = b := Except.ok.inj h
        exact File.read_le n f.file b' hr
    | error e => simp [record, hr] at h

end Logged

/-! ### One transmission -/

/-- What is recorded of one transmission, and how it ends. -/
inductive Transmission (command : Bytes) : List FileEvent → Outcome Error Bytes → Prop where
  | answered {chunks : List Bytes} {resp : Bytes} (hall : chunks.flatten = command)
      (hresp : resp ≠ []) (hroom : resp.length ≤ DeviceTransport.maxResponse) :
      Transmission command (chunks.map .wrote ++ [.flushed, .got resp]) (.ok resp)
  | empty {chunks : List Bytes} (hall : chunks.flatten = command) :
      Transmission command (chunks.map .wrote ++ [.flushed, .got []])
        (.err (.transport "empty TPM response"))
  | unread {chunks : List Bytes} (hall : chunks.flatten = command) (e : String) :
      Transmission command (chunks.map .wrote ++ [.flushed, .failed])
        (.err (.transport ("read response: " ++ e)))
  | unflushed {chunks : List Bytes} (hall : chunks.flatten = command) (e : String) :
      Transmission command (chunks.map .wrote ++ [.failed]) (.err (.transport e))
  /-- A write failed, or accepted nothing, before the end of the command. -/
  | unwritten {chunks : List Bytes} {last : FileEvent} (hpart : chunks.flatten <+: command)
      (hshort : chunks.flatten ≠ command) (hlast : last = .failed ∨ last = .wrote [])
      (e : String) :
      Transmission command (chunks.map .wrote ++ [last])
        (.err (.transport ("write command: " ++ e)))

section Transmit

variable {φ : Type} [File φ]

/-- Everything was accepted in pieces, or the pieces end before the end. -/
theorem writeAll_log (buf : Bytes) (f : Logged φ) :
    (∃ (chunks : List Bytes) (g : φ), File.writeAll buf f =
        (.ok (), { file := g, log := f.log ++ chunks.map .wrote }) ∧ chunks.flatten = buf) ∨
      ∃ (chunks : List Bytes) (last : FileEvent) (g : φ) (e : String), File.writeAll buf f =
          (.err e, { file := g, log := f.log ++ (chunks.map .wrote ++ [last]) }) ∧
        chunks.flatten <+: buf ∧ chunks.flatten ≠ buf ∧ (last = .failed ∨ last = .wrote []) := by
  induction hn : buf.length using Nat.strongRecOn generalizing buf f with
  | ind n ih =>
      rcases eq_or_ne buf [] with rfl | hne
      · exact .inl ⟨[], f.file, by rw [File.writeAll_nil, List.map_nil, List.append_nil], rfl⟩
      have hnil : ([] : List Bytes).flatten ≠ buf := fun h => hne h.symm
      rcases hwrite : File.write buf f.file with ⟨r, g⟩
      have hlogged : File.write buf f = f.record (fun n => .wrote (buf.take n)) (r, g) := by
        rw [← hwrite]
        rfl
      cases r with
      | error e =>
          have herr := File.writeAll_error hne hlogged
          exact .inr ⟨[], .failed, g, e, herr, List.nil_prefix, hnil, .inl rfl⟩
      | ok m =>
          rcases Nat.eq_zero_or_pos m with rfl | hpos
          · have hzero := File.writeAll_zero hne hlogged
            exact .inr ⟨[], .wrote [], g, _, hzero, List.nil_prefix, hnil, .inr rfl⟩
          -- what is left is written from the file behind the first piece
          have hle : m ≤ buf.length := File.write_le buf f.file m (by rw [hwrite])
          have hshorter : (buf.drop m).length < n := by
            rw [List.length_drop]
            omega
          have hok := File.writeAll_ok hne (Nat.pos_iff_ne_zero.mp hpos) hlogged
          rcases ih _ hshorter (buf.drop m) _ rfl with
            ⟨chunks, g', hrest, hall⟩ | ⟨chunks, last, g', e, hrest, hpart, hshort, hlast⟩
          · refine .inl ⟨buf.take m :: chunks, g', ?_, ?_⟩
            · rw [hok, hrest]
              simp
            · rw [List.flatten_cons, hall, List.take_append_drop]
          · refine .inr ⟨buf.take m :: chunks, last, g', e, ?_, ?_, ?_, hlast⟩
            · rw [hok, hrest]
              simp
            · rw [List.flatten_cons]
              obtain ⟨more, hmore⟩ := hpart
              exact ⟨more, by rw [List.append_assoc, hmore, List.take_append_drop]⟩
            · intro h
              rw [List.flatten_cons] at h
              have hsame := h.trans (List.take_append_drop m buf).symm
              exact hshort (List.append_cancel_left hsame)

theorem flushed_cases (f : Logged φ) :
    (∃ g, File.flushed f = (.ok (), { file := g, log := f.log ++ [.flushed] })) ∨
      ∃ e g, File.flushed f = (.err e, { file := g, log := f.log ++ [.failed] }) := by
  rcases hflush : File.flush f.file with ⟨r, g⟩
  have hlogged : File.flush f = f.record (fun _ => .flushed) (r, g) := by
    rw [← hflush]
    rfl
  rw [File.flushed, hlogged]
  cases r with
  | ok u => exact .inl ⟨g, rfl⟩
  | error e => exact .inr ⟨e, g, rfl⟩

theorem readOnce_cases (n : ℕ) (f : Logged φ) :
    (∃ b g, File.readOnce n f = (.ok b, { file := g, log := f.log ++ [.got b] }) ∧
        b.length ≤ n) ∨
      ∃ e g, File.readOnce n f = (.err e, { file := g, log := f.log ++ [.failed] }) := by
  rcases hread : File.read n f.file with ⟨r, g⟩
  have hlogged : File.read n f = f.record .got (r, g) := by
    rw [← hread]
    rfl
  rw [File.readOnce, hlogged]
  cases r with
  | ok b => exact .inl ⟨b, g, rfl, File.read_le n f.file b (by rw [hread])⟩
  | error e => exact .inr ⟨e, g, rfl⟩

theorem transmit_transmission (command : Bytes) (t : DeviceTransport (Logged φ)) :
    ∃ events, (DeviceTransport.transmit command t).2.file.log = t.file.log ++ events ∧
      Transmission command events (DeviceTransport.transmit command t).1 := by
  obtain ⟨f⟩ := t
  rw [DeviceTransport.transmit, DeviceTransport.onFile, DeviceTransport.exchange]
  rcases writeAll_log command f with
    ⟨chunks, g, hwrite, hall⟩ | ⟨chunks, last, g, e, hwrite, hpart, hshort, hlast⟩
  · rw [Exec.bind_ok (Exec.mapErr_ok _ hwrite)]
    rcases flushed_cases { file := g, log := f.log ++ chunks.map .wrote } with
      ⟨g, hflush⟩ | ⟨e, g, hflush⟩
    · rw [Exec.bind_ok (Exec.mapErr_ok _ hflush)]
      rcases readOnce_cases DeviceTransport.maxResponse
          { file := g, log := f.log ++ chunks.map .wrote ++ [.flushed] } with
        ⟨b, g, hread, hroom⟩ | ⟨e, g, hread⟩
      · rw [Exec.bind_ok (Exec.mapErr_ok _ hread)]
        rcases eq_or_ne b [] with rfl | hne
        · exact ⟨_, by simp, .empty hall⟩
        · have hlen : ¬ b.length = 0 := fun h => hne (List.length_eq_zero_iff.mp h)
          rw [if_neg hlen]
          exact ⟨_, by simp, .answered hall hne hroom⟩
      · rw [Exec.bind_err (Exec.mapErr_err _ hread)]
        exact ⟨_, by simp, .unread hall e⟩
    · rw [Exec.bind_err (Exec.mapErr_err _ hflush)]
      exact ⟨_, by simp, .unflushed hall e⟩
  · rw [Exec.bind_err (Exec.mapErr_err _ hwrite)]
    exact ⟨_, by simp, .unwritten hpart hshort hlast e⟩

end Transmit

/-! ### Any number of transmissions -/

section Run

variable {φ : Type} [File φ]

/-- Commands transmitted one after the other. -/
def deviceTransmissions : List Bytes → DeviceTransport φ →
    List (Outcome Error Bytes) × DeviceTransport φ
  | [], t => ([], t)
  | command :: commands, t =>
      ((DeviceTransport.transmit command t).1 ::
          (deviceTransmissions commands (DeviceTransport.transmit command t).2).1,
        (deviceTransmissions commands (DeviceTransport.transmit command t).2).2)

/-- The record of a run, command by command. -/
inductive Transmissions :
    List Bytes → List FileEvent → List (Outcome Error Bytes) → Prop where
  | nil : Transmissions [] [] []
  | cons {command : Bytes} {commands : List Bytes} {events more : List FileEvent}
      {o : Outcome Error Bytes} {os : List (Outcome Error Bytes)}
      (head : Transmission command events o) (tail : Transmissions commands more os) :
      Transmissions (command :: commands) (events ++ more) (o :: os)

/-- Whatever the file does, the calls made of it are those of one transmission
after the other. -/
theorem device_transmissions (commands : List Bytes) (t : DeviceTransport (Logged φ)) :
    ∃ events, (deviceTransmissions commands t).2.file.log = t.file.log ++ events ∧
      Transmissions commands events (deviceTransmissions commands t).1 := by
  induction commands generalizing t with
  | nil => exact ⟨[], (List.append_nil _).symm, .nil⟩
  | cons command commands ih =>
      obtain ⟨events, hlog, hhead⟩ := transmit_transmission command t
      obtain ⟨more, hmore, htail⟩ := ih (DeviceTransport.transmit command t).2
      refine ⟨events ++ more, ?_, .cons hhead htail⟩
      rw [deviceTransmissions, hmore, hlog, List.append_assoc]

end Run

end PurecryptoTpm
