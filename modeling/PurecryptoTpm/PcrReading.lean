import PurecryptoTpm.Codec
import PurecryptoTpm.Commands.Pcr
import PurecryptoTpm.Framing
import PurecryptoTpm.Library.Bitmap

/-!
Reading PCRs. The length of a selection list goes out in four bytes and the
length of each of its maps in one, cut to fit, so the TPM reads the selection
that was meant exactly if the wire can hold it. The reply carries a selection
of its own and a list of values, each with its own count. The values belong to
the selected PCRs by position, but nothing compares the two counts, and nothing
compares the selection with the one PCR that `pcr_read_one` asks for.
-/

namespace PurecryptoTpm

/-! ### The selection that is sent -/

section Sent

variable {P : Purecrypto} {selection : PcrSelectionList} {env : Env Line}

/-- The parameter area of every frame reads as the selection, and a selection
the wire cannot hold is refused with nothing sent. -/
def TransmitsSelection (P : Purecrypto) (selection : PcrSelectionList) (env : Env Line) : Prop :=
  (∃ frames, (pcrRead P selection env).2.transport.sent = env.transport.sent ++ frames ∧
    ∀ frame ∈ frames, ∃ cmd, (readCommand (fun _ => 0) (Reader.new frame)).1 = .ok cmd ∧
      readWhole unmarshal cmd.params = .ok selection) ∧
  (¬ selection.Wire → (∃ e, (pcrRead P selection env).1 = .err e) ∧
    (pcrRead P selection env).2.transport.sent = env.transport.sent)

theorem pcrRead_transport (P : Purecrypto) (selection : PcrSelectionList) (env : Env Line) :
    (pcrRead P selection env).2.transport =
      (run P cc.pcrRead [] [] (toBytes selection) 0 { env with auth := .none }).2.transport := by
  rw [pcrRead, Exec.bind_snd fun raw env => rfl, runBare, Env.withAuth_apply]
  rfl

/-- What the frames carry is the encoding of the selection, lengths cut off. -/
theorem pcrRead_frames (P : Purecrypto) (selection : PcrSelectionList) (env : Env Line) :
    ∃ frames, frames ≠ [] ∧
      (pcrRead P selection env).2.transport.sent = env.transport.sent ++ frames ∧
      ∀ frame ∈ frames, ∃ cmd, (readCommand (fun _ => 0) (Reader.new frame)).1 = .ok cmd ∧
        cmd.params = toBytes selection := by
  have hcount : ([] : List Handle).length = (fun _ : UInt32 => 0) cc.pcrRead := rfl
  obtain ⟨frames, hne, hsent, hreads⟩ := @run_frames_readAs cc.pcrRead [] [] (toBytes selection)
    (fun _ => 0) P 0 { env with auth := .none } hcount
  refine ⟨frames, hne trivial, ?_, fun frame hframe => ?_⟩
  · rw [pcrRead_transport, hsent]
  · obtain ⟨cmd, hcmd, -, -, -, -, hparams⟩ := hreads frame hframe
    exact ⟨cmd, hcmd, hparams⟩

theorem readWhole_toBytes_iff (selection : PcrSelectionList) :
    readWhole unmarshal (toBytes selection) = .ok selection ↔ selection.Wire := by
  rw [readWhole_ok_iff Reader.pcrSelectionList_parses]
  exact and_iff_left rfl

/-- A selection that does not fit is sent all the same. -/
theorem TransmitsSelection.wire (h : TransmitsSelection P selection env) : selection.Wire := by
  by_contra hwire
  obtain ⟨frames, hne, hsent, -⟩ := pcrRead_frames P selection env
  rw [(h.2 hwire).2, List.self_eq_append_right] at hsent
  exact hne hsent

theorem pcrRead_transmitsSelection_iff (P : Purecrypto) (selection : PcrSelectionList)
    (env : Env Line) : TransmitsSelection P selection env ↔ selection.Wire := by
  refine ⟨TransmitsSelection.wire, fun hwire => ⟨?_, fun hnot => absurd hwire hnot⟩⟩
  obtain ⟨frames, -, hsent, hframes⟩ := pcrRead_frames P selection env
  refine ⟨frames, hsent, fun frame hframe => ?_⟩
  obtain ⟨cmd, hcmd, hparams⟩ := hframes frame hframe
  exact ⟨cmd, hcmd, hparams ▸ (readWhole_toBytes_iff selection).mpr hwire⟩

/-- A TPM that does not answer. -/
def silentLine : Line where
  outcomes _ := .error (.transport "no answer")
  sent := []

/-- A map one byte too long. -/
def longSelection : PcrSelectionList := ⟨[⟨Alg.sha256, List.replicate 256 0⟩]⟩

theorem not_transmitsSelection_longSelection :
    ¬ TransmitsSelection (.ofValues [] []) longSelection
      ⟨silentLine, .none, ⟨fun _ => 0⟩⟩ := by
  intro h
  have hmap := h.wire.2 ⟨Alg.sha256, List.replicate 256 0⟩ (List.mem_singleton_self _)
  rw [PcrSelection.Wire, List.length_replicate] at hmap
  omega

end Sent

/-! ### The PCRs a selection names -/

/-- The selected PCRs of one bank, in order. -/
def PcrSelection.pcrs (s : PcrSelection) : List (Alg × ℕ) :=
  (Bitmap.members s.select).map fun n => (s.hash, n)

namespace PcrSelectionList

/-- The selected PCRs of all banks, in order. -/
def pcrs (l : PcrSelectionList) : List (Alg × ℕ) := l.list.flatMap PcrSelection.pcrs

/-- The number of bits set in the maps. -/
def bitsSet (l : PcrSelectionList) : ℕ := (l.list.map fun s => Bitmap.size s.select).sum

theorem length_pcrs (l : PcrSelectionList) : l.pcrs.length = l.bitsSet := by
  rw [pcrs, bitsSet, List.length_flatMap]
  refine congrArg List.sum (List.map_congr_left fun s _ => ?_)
  rw [PcrSelection.pcrs, List.length_map, Bitmap.length_members]

end PcrSelectionList

/-- The map of a single PCR: its bit, behind the empty bytes before it and in
front of those that make it three bytes long. -/
def singleMap (pcr : UInt8) : Bytes :=
  List.replicate (pcr / 8).toNat 0 ++ [(1 : UInt8) <<< (pcr % 8)] ++
    List.replicate (2 - (pcr / 8).toNat) 0

theorem PcrSelection.single_eq {σ : Type} (hash : Alg) (pcr : UInt8) (s : σ) :
    (PcrSelection.single hash pcr : Exec Error σ PcrSelection) s =
      (.ok ⟨hash, singleMap pcr⟩, s) := by
  have hset : (List.replicate ((pcr / 8).toNat + 1) (0 : UInt8)).set (pcr / 8).toNat
      ((1 : UInt8) <<< (pcr % 8)) =
      List.replicate (pcr / 8).toNat 0 ++ [(1 : UInt8) <<< (pcr % 8)] := by
    rw [List.replicate_succ', List.set_append_right _ _ List.length_replicate.le]
    simp
  have hlt : (pcr / 8).toNat < (List.replicate ((pcr / 8).toNat + 1) (0 : UInt8)).length := by
    rw [List.length_replicate]
    omega
  rw [PcrSelection.single, Exec.setIndex, if_pos hlt, Exec.pure_bind, Exec.pure_apply, hset,
    singleMap]
  have hlen : (List.replicate (pcr / 8).toNat (0 : UInt8) ++ [(1 : UInt8) <<< (pcr % 8)]).length =
      (pcr / 8).toNat + 1 := by
    rw [List.length_append, List.length_replicate, List.length_singleton]
  -- a map of three bytes or more is left as it is
  rcases Nat.lt_or_ge ((pcr / 8).toNat + 1) 3 with hshort | hfull
  · have hfill : 3 - ((pcr / 8).toNat + 1) = 2 - (pcr / 8).toNat := by omega
    simp only [hlen, hshort, if_true, hfill]
  · have hfill : 2 - (pcr / 8).toNat = 0 := by omega
    simp only [hlen, Nat.not_lt.mpr hfull, if_false, hfill, List.replicate_zero, List.append_nil]

/-- The map of a single PCR selects that PCR. -/
theorem members_singleMap (pcr : UInt8) : Bitmap.members (singleMap pcr) = [pcr.toNat] := by
  have hbit : ∀ n : ℕ, n < 8 → Bitmap.members [(1 : UInt8) <<< UInt8.ofNat n] = [n] := by decide
  have hlt : pcr.toNat % 8 < 256 := by omega
  have hmod : pcr % 8 = UInt8.ofNat (pcr.toNat % 8) := by
    rw [← UInt8.toNat_inj, UInt8.toNat_mod, UInt8.toNat_ofNat_of_lt' hlt]
    rfl
  have hdiv : (pcr / 8).toNat = pcr.toNat / 8 := UInt8.toNat_div pcr 8
  rw [singleMap, Bitmap.members_append, Bitmap.members_append, Bitmap.members_zeros,
    Bitmap.members_zeros, hmod, hbit _ (Nat.mod_lt _ (by omega)), hdiv, List.length_replicate]
  exact congrArg List.singleton (Nat.div_add_mod pcr.toNat 8)

theorem length_singleMap_lt (pcr : UInt8) : (singleMap pcr).length < 256 := by
  have hdiv : (pcr / 8).toNat = pcr.toNat / 8 := UInt8.toNat_div pcr 8
  have hlt := pcr.toNat_lt
  simp only [singleMap, List.length_append, List.length_replicate, List.length_singleton]
  omega

/-- What `pcr_read_one` asks for is the PCR it is called for, and no other. -/
theorem pcrReadOne_frames (P : Purecrypto) (bank : Alg) (pcr : UInt8) (env : Env Line) :
    ∃ frames, frames ≠ [] ∧
      (pcrReadOne P bank pcr env).2.transport.sent = env.transport.sent ++ frames ∧
      ∀ frame ∈ frames, ∃ cmd, ∃ selection : PcrSelectionList,
        decodeCommand (fun _ => 0) frame = some cmd ∧ cmd.code = cc.pcrRead ∧
        readWhole unmarshal cmd.params = .ok selection ∧
        selection.pcrs = [(bank, pcr.toNat)] := by
  have hlt := length_singleMap_lt pcr
  have hwire : PcrSelectionList.Wire ⟨[⟨bank, singleMap pcr⟩]⟩ := by
    refine ⟨by simp, fun s hs => ?_⟩
    rw [List.mem_singleton.mp hs]
    exact Nat.le_of_lt_succ hlt
  have hpcrs : PcrSelectionList.pcrs ⟨[⟨bank, singleMap pcr⟩]⟩ = [(bank, pcr.toNat)] := by
    rw [PcrSelectionList.pcrs, List.flatMap_singleton, PcrSelection.pcrs, members_singleMap]
    rfl
  have hshort : ∀ body places, requestBody P cc.pcrRead [] []
      (toBytes (PcrSelectionList.mk [⟨bank, singleMap pcr⟩])) (.none, env.os) =
        (.ok body, places) → body.length < 4294967286 := by
    intro body places hbody
    rw [requestBody_none] at hbody
    have hparams : body = toBytes (PcrSelectionList.mk [⟨bank, singleMap pcr⟩]) :=
      (Outcome.ok.inj (Prod.mk.inj hbody).1).symm
    have hlen : (toBytes (PcrSelectionList.mk [⟨bank, singleMap pcr⟩])).length =
        7 + (singleMap pcr).length := by
      rw [PcrSelectionList.toBytes_eq, List.map_singleton, List.flatten_singleton,
        PcrSelection.toBytes_eq]
      simp
      omega
    rw [hparams, hlen]
    omega
  obtain ⟨frames, hne, hsent, hframes⟩ := @run_of_buildable P cc.pcrRead [] [] _ (fun _ => 0) .none
    trivial 0 env.transport env.os rfl hshort
  refine ⟨frames, hne, ?_, fun frame hframe => ?_⟩
  · rw [pcrReadOne, Exec.bind_ok (PcrSelection.single_eq bank pcr env),
      Exec.bind_snd fun res env => rfl, pcrRead_transport]
    exact hsent
  · obtain ⟨cmd, hcmd, -, -, hcode, -, -, hparams⟩ := hframes frame hframe
    exact ⟨cmd, _, hcmd, hcode, hparams ▸ (readWhole_toBytes_iff _).mpr hwire, hpcrs⟩

/-! ### The values that are returned -/

/-- Counter, selection and values, and anything behind them. -/
def PcrParams (counter : UInt32) (selection : PcrSelectionList) (values : List Buffer)
    (params : Bytes) : Prop :=
  selection.Wire ∧ WireDigests values ∧ ∃ rest,
    params = toBeBytes counter ++ toBytes selection ++ digestListBytes values ++ rest

/-- The reply on which the loop stops has parameters of that form. -/
def Carries (line : Line) (counter : UInt32) (selection : PcrSelectionList)
    (values : List Buffer) : Prop :=
  ∃ i resp reply, StopsAt line.outcome i ∧ line.outcome i = .ok resp ∧ Reading 0 resp reply ∧
    PcrParams counter selection values reply.raw.params

/-- As many values as PCRs are selected, so that each value has a PCR to belong to. -/
def PcrReadResult.Attributed (res : PcrReadResult) : Prop :=
  res.values.length = res.selection.bitsSet ∧
    ∀ (i : ℕ) (value : Buffer), res.values[i]? = some value →
      ∃ pcr, res.selection.pcrs[i]? = some pcr

/-- `pcr_read` returns attributed values or none at all. -/
def ReadsAttributed (P : Purecrypto) (selection : PcrSelectionList) (env : Env Line) : Prop :=
  ∀ res, (pcrRead P selection env).1 = .ok res → res.Attributed

/-- `pcr_read_one` returns a value only if it is the one value of a reply that
selects the PCR asked for and no other. -/
def ReadsOneAttributed (P : Purecrypto) (bank : Alg) (pcr : UInt8) (env : Env Line) : Prop :=
  ∀ value, (pcrReadOne P bank pcr env).1 = .ok (some value) →
    ∃ counter selection, Carries env.transport counter selection [value] ∧
      selection.pcrs = [(bank, pcr.toNat)]

/-- The reply has more or fewer values than bits set in its selection. -/
def Miscounted (line : Line) : Prop :=
  ∃ counter selection values, Carries line counter selection values ∧
    values.length ≠ selection.bitsSet

/-- The reply has a value, and more than one or a selection that is not just
the PCR asked for. -/
def Misplaced (line : Line) (bank : Alg) (pcr : UInt8) : Prop :=
  ∃ counter selection value values, Carries line counter selection (value :: values) ∧
    (values ≠ [] ∨ selection.pcrs ≠ [(bank, pcr.toNat)])

section Returned

variable {P : Purecrypto} {selection : PcrSelectionList} {bank : Alg} {pcr : UInt8}
  {env : Env Line}

theorem PcrReadResult.attributed_iff (res : PcrReadResult) :
    res.Attributed ↔ res.values.length = res.selection.bitsSet := by
  refine ⟨fun h => h.1, fun h => ⟨h, fun i value hvalue => ?_⟩⟩
  obtain ⟨hi, -⟩ := List.getElem?_eq_some_iff.mp hvalue
  have hlt : i < res.selection.pcrs.length := by
    rw [PcrSelectionList.length_pcrs]
    omega
  exact ⟨_, List.getElem?_eq_getElem hlt⟩

theorem readPcrValues_parses : Parses Reader.between Malformed readPcrValues (fun res w =>
    res.selection.Wire ∧ WireDigests res.values ∧
      w = toBeBytes res.updateCounter ++ toBytes res.selection ++ digestListBytes res.values) := by
  refine (Reader.u32_parses.bind fun counter => Reader.pcrSelectionList_parses.bind
    fun selection => Reader.readDigestList_parses.bind fun values =>
      Parses.pure (PcrReadResult.mk counter selection values)).congr fun res w => ?_
  refine ⟨fun h => ?_, fun h => ?_⟩
  · obtain ⟨counter, _, _, rfl, ⟨selection, _, _, ⟨hselection, rfl⟩,
      ⟨values, _, _, ⟨hvalues, rfl⟩, ⟨rfl, rfl⟩, rfl⟩, rfl⟩, rfl⟩ := h
    exact ⟨hselection, hvalues, by simp⟩
  · obtain ⟨hselection, hvalues, rfl⟩ := h
    exact ⟨res.updateCounter, _, _, rfl, ⟨res.selection, _, _, ⟨hselection, rfl⟩,
      ⟨res.values, _, [], ⟨hvalues, rfl⟩, ⟨rfl, rfl⟩, rfl⟩, rfl⟩, by simp⟩

theorem readPcrValues_ok_iff (params : Bytes) (res : PcrReadResult) :
    (readPcrValues (Reader.new params)).1 = .ok res ↔
      PcrParams res.updateCounter res.selection res.values params := by
  rw [Reader.new_ok_iff readPcrValues_parses]
  refine ⟨fun h => ?_, fun h => ?_⟩
  · obtain ⟨_, rest, ⟨hselection, hvalues, rfl⟩, hparams⟩ := h
    exact ⟨hselection, hvalues, rest, hparams⟩
  · obtain ⟨hselection, hvalues, rest, hparams⟩ := h
    exact ⟨_, rest, ⟨hselection, hvalues, rfl⟩, hparams⟩

theorem runBare_ok_iff {code : UInt32} {p : Bytes} {raw : RawResponse} :
    (runBare P code p env).1 = .ok raw ↔ ∃ i resp reply, StopsAt env.transport.outcome i ∧
      env.transport.outcome i = .ok resp ∧ Reading 0 resp reply ∧ reply.raw = raw := by
  rw [runBare, Env.withAuth_apply]
  exact run_none_ok_iff

/-- A reading returns what the reply carries, whatever was asked for. -/
theorem pcrRead_ok_iff {res : PcrReadResult} : (pcrRead P selection env).1 = .ok res ↔
    Carries env.transport res.updateCounter res.selection res.values := by
  refine ⟨fun h => ?_, fun h => ?_⟩
  · obtain ⟨raw, env', hrun, hread⟩ := Exec.bind_eq_ok.mp (Prod.ext h rfl)
    obtain ⟨i, resp, reply, hstops, hresp, hreading, rfl⟩ :=
      runBare_ok_iff.mp (congrArg Prod.fst hrun)
    exact ⟨i, resp, reply, hstops, hresp, hreading,
      (readPcrValues_ok_iff _ _).mp (Prod.mk.inj hread).1⟩
  · obtain ⟨i, resp, reply, hstops, hresp, hreading, hparams⟩ := h
    have hrun : (runBare P cc.pcrRead (marshal selection []) env).1 = .ok reply.raw :=
      runBare_ok_iff.mpr ⟨i, resp, reply, hstops, hresp, hreading, rfl⟩
    rw [pcrRead, Exec.bind_ok (Prod.ext hrun rfl), Exec.alone_apply]
    exact (readPcrValues_ok_iff _ _).mpr hparams

/-- A reply carries one selection and one list of values. -/
theorem Carries.unique {line : Line} {counter counter' : UInt32}
    {selection selection' : PcrSelectionList} {values values' : List Buffer}
    (h : Carries line counter selection values) (h' : Carries line counter' selection' values') :
    selection = selection' ∧ values = values' := by
  obtain ⟨i, resp, reply, hstops, hresp, hreading, hparams⟩ := h
  obtain ⟨j, resp', reply', hstops', hresp', hreading', hparams'⟩ := h'
  obtain rfl := hstops.unique hstops'
  obtain rfl : resp = resp' := Except.ok.inj (hresp.symm.trans hresp')
  obtain rfl := hreading.unique hreading'
  have hres := (readPcrValues_ok_iff _ ⟨counter, selection, values⟩).mpr hparams
  have hres' := (readPcrValues_ok_iff _ ⟨counter', selection', values'⟩).mpr hparams'
  have heq := Outcome.ok.inj (hres.symm.trans hres')
  exact ⟨congrArg PcrReadResult.selection heq, congrArg PcrReadResult.values heq⟩

theorem readsAttributed_iff :
    ReadsAttributed P selection env ↔ ¬ Miscounted env.transport := by
  refine ⟨fun h hmiscounted => ?_, fun h res hres => ?_⟩
  · obtain ⟨counter, selection', values, hcarries, hne⟩ := hmiscounted
    exact hne (h ⟨counter, selection', values⟩ (pcrRead_ok_iff.mpr hcarries)).1
  · rw [PcrReadResult.attributed_iff]
    by_contra hne
    exact h ⟨_, _, _, pcrRead_ok_iff.mp hres, hne⟩

/-- The value is the first one the reply carries. -/
theorem pcrReadOne_eq_some_iff {value : Buffer} :
    (pcrReadOne P bank pcr env).1 = .ok (some value) ↔
      ∃ counter selection values, Carries env.transport counter selection (value :: values) := by
  rw [pcrReadOne, Exec.bind_ok (PcrSelection.single_eq bank pcr env)]
  refine ⟨fun h => ?_, fun h => ?_⟩
  · obtain ⟨res, env', hread, hvalue⟩ := Exec.bind_eq_ok.mp (Prod.ext h rfl)
    have hhead : res.values.head? = some value := Outcome.ok.inj (Prod.mk.inj hvalue).1
    obtain ⟨values, hvalues⟩ := List.head?_eq_some_iff.mp hhead
    refine ⟨res.updateCounter, res.selection, values, ?_⟩
    rw [← hvalues]
    exact pcrRead_ok_iff.mp (congrArg Prod.fst hread)
  · obtain ⟨counter, selection', values, hcarries⟩ := h
    have hread : (pcrRead P { list := [⟨bank, singleMap pcr⟩] } env).1 =
        .ok ⟨counter, selection', value :: values⟩ := pcrRead_ok_iff.mpr hcarries
    rw [Exec.bind_ok (Prod.ext hread rfl), Exec.pure_apply]
    rfl

theorem readsOneAttributed_iff :
    ReadsOneAttributed P bank pcr env ↔ ¬ Misplaced env.transport bank pcr := by
  refine ⟨fun h hmisplaced => ?_, fun h value hvalue => ?_⟩
  · obtain ⟨counter, selection', value, values, hcarries, hwrong⟩ := hmisplaced
    obtain ⟨counter', selection'', hone, hpcrs⟩ :=
      h value (pcrReadOne_eq_some_iff.mpr ⟨counter, selection', values, hcarries⟩)
    obtain ⟨rfl, hvalues⟩ := hcarries.unique hone
    rcases hwrong with hmore | hother
    · exact hmore (List.cons.inj hvalues).2
    · exact hother hpcrs
  · obtain ⟨counter, selection', values, hcarries⟩ := pcrReadOne_eq_some_iff.mp hvalue
    have hright : values = [] ∧ selection'.pcrs = [(bank, pcr.toNat)] := by
      by_contra hwrong
      exact h ⟨counter, selection', value, values, hcarries, not_and_or.mp hwrong⟩
    obtain ⟨rfl, hpcrs⟩ := hright
    exact ⟨counter, selection', hcarries, hpcrs⟩

end Returned

/-- Values are returned for the PCRs they belong to exactly if the reply is not
one whose counts disagree, and for one PCR, not one with a value of another. -/
theorem pcrValues_attributed_iff (P : Purecrypto) (env : Env Line) :
    (∀ selection, ReadsAttributed P selection env ↔ ¬ Miscounted env.transport) ∧
    ∀ bank pcr, ReadsOneAttributed P bank pcr env ↔ ¬ Misplaced env.transport bank pcr :=
  ⟨fun _ => readsAttributed_iff, fun _ _ => readsOneAttributed_iff⟩

/-- One value for two selected PCRs, of which PCR 0 of the SHA-256 bank is one. -/
def miscountedLine : Line where
  outcomes _ := .ok [0x80, 0x01, 0, 0, 0, 31, 0, 0, 0, 0, 0, 0, 0, 0, 0, 0, 0, 1, 0, 0x0B, 3,
    3, 0, 0, 0, 0, 0, 1, 0, 1, 0xAA]
  sent := []

/-- One value, for PCR 5 of the SHA-1 bank. -/
def misplacedLine : Line where
  outcomes _ := .ok [0x80, 0x01, 0, 0, 0, 31, 0, 0, 0, 0, 0, 0, 0, 0, 0, 0, 0, 1, 0, 0x04, 3,
    0x20, 0, 0, 0, 0, 0, 1, 0, 1, 0xAA]
  sent := []

/-- Both values are returned, the second one as PCR 0 of the SHA-256 bank. -/
theorem not_pcrValues_attributed :
    ¬ ReadsAttributed (.ofValues [] []) ⟨[⟨Alg.sha256, [3, 0, 0]⟩]⟩
      ⟨miscountedLine, .none, ⟨fun _ => 0⟩⟩ ∧
    ¬ ReadsOneAttributed (.ofValues [] []) Alg.sha256 0 ⟨misplacedLine, .none, ⟨fun _ => 0⟩⟩ := by
  refine ⟨fun h => ?_, fun h => ?_⟩
  · have hread : (pcrRead (.ofValues [] []) ⟨[⟨Alg.sha256, [3, 0, 0]⟩]⟩
        ⟨miscountedLine, .none, ⟨fun _ => 0⟩⟩).1 =
        .ok ⟨0, ⟨[⟨Alg.sha256, [3, 0, 0]⟩]⟩, [⟨[0xAA]⟩]⟩ := by decide +kernel
    have hcounts : 1 = 2 := (h _ hread).1
    omega
  · have hread : (pcrRead (.ofValues [] []) ⟨[]⟩ ⟨misplacedLine, .none, ⟨fun _ => 0⟩⟩).1 =
        .ok ⟨0, ⟨[⟨Alg.sha1, [0x20, 0, 0]⟩]⟩, [⟨[0xAA]⟩]⟩ := by decide +kernel
    have hcarries := pcrRead_ok_iff.mp hread
    obtain ⟨counter, selection, hone, hpcrs⟩ :=
      h ⟨[0xAA]⟩ (pcrReadOne_eq_some_iff.mpr ⟨_, _, [], hcarries⟩)
    obtain ⟨rfl, -⟩ := hcarries.unique hone
    have hbank : Alg.sha1 = Alg.sha256 := (Prod.mk.inj (List.cons.inj hpcrs).1).1
    exact absurd hbank (by decide)

end PurecryptoTpm
