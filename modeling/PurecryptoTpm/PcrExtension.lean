import PurecryptoTpm.Codec
import PurecryptoTpm.Commands.Pcr
import PurecryptoTpm.Framing

/-!
Extending a PCR. The digests follow their algorithms without a length, so a
reader finds the end of one only from the size its algorithm has. With digests
of the right sizes it finds every end, and the parameter area reads as the list
it was built from.
-/

namespace PurecryptoTpm

/-! ### Lists of digests by algorithm -/

/-- One algorithm and a digest of its size. -/
def readDigestValue : Exec Error Reader (Alg × Bytes) := do
  let alg ← unmarshal
  match Alg.digestSize alg with
  | some n => do
      let digest ← Reader.take n
      pure (alg, digest)
  | none => Exec.throw (.malformed "digest of unknown size")

/-- A count and as many digests. -/
def readDigestValues : Exec Error Reader (List (Alg × Bytes)) := do
  let count ← Reader.u32
  Exec.times readDigestValue count.toNat

/-- The digest has the size of its algorithm. -/
def SizedDigest (value : Alg × Bytes) : Prop := value.1.digestSize = some value.2.length

/-- The bytes of one entry. -/
def digestValueBytes (value : Alg × Bytes) : Bytes := toBeBytes value.1.raw ++ value.2

/-- The parameter area of an extension. -/
def extendParams (digests : List (Alg × Bytes)) : Bytes :=
  digests.foldl (fun p digest => marshal digest.1 p ++ digest.2)
    (marshal (UInt32.ofNat digests.length) [])

theorem foldl_digestValues (digests : List (Alg × Bytes)) (p : Bytes) :
    digests.foldl (fun p digest => marshal digest.1 p ++ digest.2) p =
      p ++ (digests.map digestValueBytes).flatten := by
  have hentry : ∀ (p : Bytes) (value : Alg × Bytes),
      marshal value.1 p ++ value.2 = p ++ digestValueBytes value := by
    intro p value
    rw [marshal_eq, toBytes_alg, digestValueBytes, List.append_assoc]
  simp only [hentry, List.foldl_append_eq_append]

theorem extendParams_eq (digests : List (Alg × Bytes)) : extendParams digests =
    toBeBytes (UInt32.ofNat digests.length) ++ (digests.map digestValueBytes).flatten := by
  rw [extendParams, foldl_digestValues, marshal_eq, List.nil_append, toBytes_prim]

theorem readDigestValue_parses : Parses Reader.between Malformed readDigestValue
    (wireFormat SizedDigest digestValueBytes) := by
  -- the algorithm says how many bytes follow, or that nothing can
  have hdigest : ∀ alg : Alg, Parses Reader.between Malformed
      (match Alg.digestSize alg with
        | some n => do
            let digest ← Reader.take n
            pure (alg, digest)
        | none => Exec.throw (.malformed "digest of unknown size"))
      (fun value w => value.1 = alg ∧ SizedDigest value ∧ w = value.2) := by
    intro alg
    cases hsize : Alg.digestSize alg with
    | none =>
        refine (Parses.throw ⟨_, rfl⟩).congr fun value w => ⟨False.elim, fun h => ?_⟩
        obtain ⟨rfl, hsized, -⟩ := h
        simp [SizedDigest, hsize] at hsized
    | some n =>
        refine ((Reader.take_parses n).bind fun digest => Parses.pure (alg, digest)).congr
          fun value w => ⟨fun h => ?_, fun h => ?_⟩
        · obtain ⟨digest, _, _, ⟨rfl, hlen⟩, ⟨rfl, rfl⟩, rfl⟩ := h
          exact ⟨rfl, by rw [SizedDigest, hsize, hlen], List.append_nil _⟩
        · obtain ⟨rfl, hsized, rfl⟩ := h
          have hlen : value.2.length = n := Option.some.inj (hsized.symm.trans hsize)
          exact ⟨value.2, _, [], ⟨rfl, hlen⟩, ⟨rfl, rfl⟩, (List.append_nil _).symm⟩
  refine (Reader.alg_parses.bind hdigest).congr fun value w => ⟨fun h => ?_, fun h => ?_⟩
  · obtain ⟨alg, _, _, ⟨-, rfl⟩, ⟨rfl, hsized, rfl⟩, rfl⟩ := h
    exact ⟨hsized, rfl⟩
  · obtain ⟨hsized, rfl⟩ := h
    exact ⟨value.1, _, _, ⟨trivial, rfl⟩, ⟨rfl, hsized, rfl⟩, rfl⟩

/-- The lists whose count fits and whose digests have their sizes. -/
def WireDigestValues (digests : List (Alg × Bytes)) : Prop :=
  digests.length < 4294967296 ∧ ∀ value ∈ digests, SizedDigest value

theorem readDigestValues_parses : Parses Reader.between Malformed readDigestValues
    (wireFormat WireDigestValues extendParams) := by
  refine (Reader.u32_parses.bind fun count => readDigestValue_parses.times count.toNat).congr
    fun digests w => ?_
  rw [wireFormat, extendParams_eq]
  exact counted_iff SizedDigest digestValueBytes digests w

theorem readWhole_extendParams {digests : List (Alg × Bytes)} (h : WireDigestValues digests) :
    readWhole readDigestValues (extendParams digests) = .ok digests :=
  (readWhole_ok_iff readDigestValues_parses _ _).mpr ⟨h, rfl⟩

/-- No two lists are written the same way. -/
theorem extendParams_inj {digests digests' : List (Alg × Bytes)} (h : WireDigestValues digests)
    (h' : WireDigestValues digests') (heq : extendParams digests = extendParams digests') :
    digests = digests' := by
  have hread := readWhole_extendParams h
  rw [heq, readWhole_extendParams h'] at hread
  exact (Except.ok.inj hread).symm

/-! ### The frames of an extension -/

/-- The four bytes behind the header are the handle of the PCR, and what the
authorization covers has those bytes as its Name. The parameters read as the
digests. -/
def ExtendsWith (P : Purecrypto) (pcr : UInt32) (digests : List (Alg × Bytes)) (auth : Auth)
    (os : OsRng) (frame : Bytes) : Prop :=
  ∃ cmd, (readCommand (fun _ => 1) (Reader.new frame)).1 = .ok cmd ∧ cmd.code = cc.pcrExtend ∧
    cmd.handles = [⟨pcr⟩] ∧ (frame.drop 10).take 4 = toBeBytes pcr ∧
    auth.Area P cc.pcrExtend [(frame.drop 10).take 4] cmd.params os cmd.area ∧
    cmd.params = extendParams digests ∧ readWhole readDigestValues cmd.params = .ok digests

/-- The handle area stands right behind the header. -/
theorem handles_of_readCommand {handleCount : UInt32 → ℕ} {frame : Bytes} {cmd : Command}
    (h : (readCommand handleCount (Reader.new frame)).1 = .ok cmd) :
    (frame.drop 10).take (handleArea cmd.handles).length = handleArea cmd.handles := by
  obtain ⟨-, hframe⟩ := readCommand_eq_ok (Prod.ext h rfl)
  have hheader : (toBeBytes cmd.tag ++ toBeBytes cmd.size ++ toBeBytes cmd.code).length = 10 := by
    simp
  rw [hframe, Command.encode, List.append_assoc, List.append_assoc, List.drop_left' hheader,
    List.take_left]

theorem pcrExtend_eq (P : Purecrypto) (pcr : UInt32) (digests : List (Alg × Bytes)) :
    (pcrExtend P pcr digests : Exec Error (Env Line) Unit) =
      run P cc.pcrExtend [⟨pcr⟩] [permanentName ⟨pcr⟩] (extendParams digests) 0 >>=
        fun _ => pure () := rfl

theorem pcrExtend_frames (P : Purecrypto) (pcr : UInt32) {digests : List (Alg × Bytes)}
    (hdigests : WireDigestValues digests) (env : Env Line) :
    ∃ frames, (env.auth.Buildable → frames ≠ []) ∧
      (pcrExtend P pcr digests env).2.transport.sent = env.transport.sent ++ frames ∧
      ∀ frame ∈ frames, ExtendsWith P pcr digests env.auth env.os frame := by
  have hcount : [Handle.mk pcr].length = (fun _ : UInt32 => 1) cc.pcrExtend := rfl
  obtain ⟨frames, hne, hsent, hreads⟩ := @run_frames_readAs cc.pcrExtend [⟨pcr⟩]
    [permanentName ⟨pcr⟩] (extendParams digests) (fun _ => 1) P 0 env hcount
  refine ⟨frames, hne, ?_, fun frame hframe => ?_⟩
  · rw [pcrExtend_eq, Exec.bind_snd fun raw env => rfl, hsent]
  · obtain ⟨cmd, hcmd, -, hcode, hhandles, harea, hparams⟩ := hreads frame hframe
    have hname : (frame.drop 10).take 4 = toBeBytes pcr := by
      have hhandle := handles_of_readCommand hcmd
      rw [hhandles] at hhandle
      simpa [handleArea] using hhandle
    refine ⟨cmd, hcmd, hcode, hhandles, hname, ?_, hparams, ?_⟩
    · rw [hname, hparams]
      exact harea
    · rw [hparams]
      exact readWhole_extendParams hdigests

/-- Every frame of an extension reads as the digests it was called with, in
order and with nothing left over, under the handle the authorization covers;
and no other list has the same parameter area. -/
theorem pcrExtend_sendsDigests (P : Purecrypto) (pcr : UInt32) (digests : List (Alg × Bytes))
    (hdigests : WireDigestValues digests) (env : Env Line) :
    (∃ frames, (env.auth.Buildable → frames ≠ []) ∧
      (pcrExtend P pcr digests env).2.transport.sent = env.transport.sent ++ frames ∧
      ∀ frame ∈ frames, ExtendsWith P pcr digests env.auth env.os frame) ∧
    ∀ digests', WireDigestValues digests' → digests' ≠ digests →
      extendParams digests' ≠ extendParams digests :=
  ⟨pcrExtend_frames P pcr hdigests env,
    fun _ hdigests' hne heq => hne (extendParams_inj hdigests' hdigests heq)⟩

/-- A digest for each of two banks. -/
def bankDigests : List (Alg × Bytes) :=
  [(Alg.sha256, List.replicate 32 0xAA), (Alg.sha1, List.replicate 20 0xBB)]

/-- Extending PCR 7 of both banks under an empty password. -/
def extendingEnv : Env Line where
  transport :=
    { outcomes := fun _ => .ok
        [0x80, 0x02, 0, 0, 0, 19, 0, 0, 0, 0, 0, 0, 0, 0, 0, 0, 1, 0, 0]
      sent := [] }
  auth := .password []
  os := ⟨fun _ => 0⟩

theorem pcrExtend_sendsDigests_banks :
    ∃ frames, frames ≠ [] ∧
      (pcrExtend (.ofValues [] []) 7 bankDigests extendingEnv).2.transport.sent = frames ∧
      ∀ frame ∈ frames, ExtendsWith (.ofValues [] []) 7 bankDigests (.password []) ⟨fun _ => 0⟩
        frame := by
  have hdigests : WireDigestValues bankDigests := by
    refine ⟨by decide, fun value hvalue => ?_⟩
    rcases List.mem_pair.mp hvalue with rfl | rfl <;> rfl
  obtain ⟨⟨frames, hne, hsent, hframes⟩, -⟩ :=
    pcrExtend_sendsDigests (.ofValues [] []) 7 bankDigests hdigests extendingEnv
  exact ⟨frames, hne (by decide : 0 < 65536), hsent, hframes⟩

end PurecryptoTpm
