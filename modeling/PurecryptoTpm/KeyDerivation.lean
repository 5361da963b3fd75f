import PurecryptoTpm.Session

/-!
What the key derivation computes. KDFa is defined byte by byte: a keystream
made of the HMACs of a counter, cut to the length asked for, with the surplus
high bits of its first byte cleared. The loop of `kdfa` appends one block in
each round, so its invariant is that the output so far is the keystream up to
the end of a block.
-/

namespace PurecryptoTpm

namespace crypto

/-- The message of the `i`-th round, counted from one. -/
def kdfaMessage (i : ℕ) (label contextU contextV : Bytes) (bits : UInt32) : Bytes :=
  toBeBytes (UInt32.ofNat i) ++ label ++ [0x00] ++ contextU ++ contextV ++ toBeBytes bits

/-- The `i`-th byte of the keystream. -/
def keystream (P : Purecrypto) (d : Digest) (key label contextU contextV : Bytes)
    (bits : UInt32) (i : ℕ) : UInt8 :=
  (P.hmac d key (kdfaMessage (i / d.size + 1) label contextU contextV bits)).getD (i % d.size) 0

/-- The low `r` bits of a byte. -/
def lowBits (r : ℕ) (b : UInt8) : UInt8 := UInt8.ofNat (b.toNat % 2 ^ r)

/-- The `i`-th byte of the key material: of the first byte, only as many bits as
are left over. -/
def kdfaByte (P : Purecrypto) (d : Digest) (key label contextU contextV : Bytes)
    (bits : UInt32) (i : ℕ) : UInt8 :=
  let b := keystream P d key label contextU contextV bits i
  if i = 0 ∧ bits.toNat % 8 ≠ 0 then lowBits (bits.toNat % 8) b else b

end crypto

theorem Digest.size_pos (d : Digest) : 0 < d.size := by cases d <;> decide

section

open crypto

variable {P : Purecrypto} {alg : Alg} {d : Digest} {key label contextU contextV : Bytes}
  {bits : UInt32}

/-! ### Rounds -/

theorem ceilDiv_le_self {a b : ℕ} (hb : 0 < b) : a ⌈/⌉ b ≤ a := by
  rw [ceilDiv_le_iff_le_mul hb]
  exact Nat.le_mul_of_pos_left a hb

theorem lt_ceilDiv {a b c : ℕ} (hb : 0 < b) : c < a ⌈/⌉ b ↔ b * c < a := by
  rw [← not_le, ceilDiv_le_iff_le_mul hb, not_le]

/-- The loop has appended `k` blocks of keystream. -/
structure Streamed (P : Purecrypto) (d : Digest) (key label contextU contextV : Bytes)
    (bits : UInt32) (k : ℕ) (s : KdfaState) : Prop where
  counter : s.counter = UInt32.ofNat k
  length : s.out.length = d.size * k
  byte : ∀ i < d.size * k, s.out[i]? = some (keystream P d key label contextU contextV bits i)

theorem streamed_zero : Streamed P d key label contextU contextV bits 0 ⟨0, []⟩ where
  counter := rfl
  length := rfl
  byte i hi := by omega

/-- What a round does, as long as its counter is no larger than the type. -/
theorem kdfaRound_eq (hd : Digest.ofAlg alg = some d) {k : ℕ} (hk : k + 1 < 4294967296)
    (out : Bytes) :
    kdfaRound P alg key label contextU contextV bits ⟨UInt32.ofNat k, out⟩ =
      (.ok (), ⟨UInt32.ofNat (k + 1),
        out ++ P.hmac d key (kdfaMessage (k + 1) label contextU contextV bits)⟩) := by
  have hmax : ¬UInt32.ofNat k = 0xFFFF_FFFF := by
    intro hmax
    have hcounter : (UInt32.ofNat k).toNat = k :=
      UInt32.toNat_ofNat_of_lt' (show k < 4294967296 by omega)
    have hvalue : (0xFFFF_FFFF : UInt32).toNat = 4294967295 := rfl
    rw [hmax] at hcounter
    omega
  have hnext : UInt32.ofNat k + 1 = UInt32.ofNat (k + 1) := (UInt32.ofNat_add k 1).symm
  have hblock : hmacParts P alg key
        (kdfaParts (UInt32.ofNat (k + 1)) label contextU contextV bits) =
      .ok (P.hmac d key (kdfaMessage (k + 1) label contextU contextV bits)) := by
    rw [hmacParts_of_some hd]
    simp [kdfaParts, kdfaMessage]
  rw [kdfaRound, Exec.get_bind, if_neg hmax]
  simp only [hnext, hblock, Exec.ofExcept_ok_bind, Exec.set_apply]

/-- A byte of the keystream is a byte of its block. -/
theorem keystream_block (k j : ℕ) (hj : j < d.size) :
    (P.hmac d key (kdfaMessage (k + 1) label contextU contextV bits))[j]? =
      some (keystream P d key label contextU contextV bits (j + d.size * k)) := by
  have hdiv : (j + d.size * k) / d.size = k := by
    rw [Nat.add_mul_div_left _ _ d.size_pos, Nat.div_eq_of_lt hj, Nat.zero_add]
  have hmod : (j + d.size * k) % d.size = j := by
    rw [Nat.add_mul_mod_self_left, Nat.mod_eq_of_lt hj]
  rw [keystream, hdiv, hmod, List.getD_eq_getElem?_getD,
    List.getElem?_eq_getElem (by rw [P.length_hmac]; exact hj)]
  rfl

theorem Streamed.round (hd : Digest.ofAlg alg = some d) {k : ℕ} {s : KdfaState}
    (h : Streamed P d key label contextU contextV bits k s) (hk : k + 1 < 4294967296) :
    ∃ t, kdfaRound P alg key label contextU contextV bits s = (.ok (), t) ∧
      Streamed P d key label contextU contextV bits (k + 1) t := by
  obtain ⟨counter, out⟩ := s
  obtain ⟨rfl, hlength, hbyte⟩ := h
  have hlength : out.length = d.size * k := hlength
  refine ⟨_, kdfaRound_eq hd hk out, rfl, ?_, ?_⟩
  · rw [List.length_append, hlength, P.length_hmac, Nat.mul_add, Nat.mul_one]
  · intro i hi
    rw [Nat.mul_add, Nat.mul_one] at hi
    by_cases hold : i < d.size * k
    · rw [List.getElem?_append_left (by omega), hbyte i hold]
    · obtain ⟨j, rfl⟩ : ∃ j, i = j + d.size * k := ⟨i - d.size * k, by omega⟩
      rw [List.getElem?_append_right (by omega), hlength, Nat.add_sub_cancel,
        keystream_block k j (by omega)]

/-- The number of rounds for `n` bytes is small enough for the counter. -/
theorem kdfaLoop_eq (hd : Digest.ofAlg alg = some d) {n : ℕ} (hn : n < 4294967296) :
    ∃ t, Streamed P d key label contextU contextV bits (n ⌈/⌉ d.size) t ∧
      kdfaLoop P alg key label contextU contextV bits n ⟨0, []⟩ = (.ok (n ⌈/⌉ d.size), t) := by
  have hpos := d.size_pos
  have hle : n ⌈/⌉ d.size ≤ n := ceilDiv_le_self hpos
  have hloop : ∃ t, Streamed P d key label contextU contextV bits (n ⌈/⌉ d.size) t ∧
      Exec.whileLoop (fun s => s.out.length < n) (kdfaRound P alg key label contextU contextV bits)
        (n + 1) ⟨0, []⟩ = (.ok (some (n ⌈/⌉ d.size - 0)), t) := by
    apply Exec.whileLoop_rounds (Streamed P d key label contextU contextV bits)
    · intro k s hk hs
      refine ⟨?_, hs.round hd (by omega)⟩
      rw [decide_eq_true_iff, hs.length]
      exact (lt_ceilDiv hpos).1 hk
    · intro s hs
      rw [decide_eq_false_iff_not, hs.length, ← lt_ceilDiv hpos]
      exact lt_irrefl _
    · exact Nat.zero_le _
    · exact streamed_zero
    · omega
  obtain ⟨t, ht, hrun⟩ := hloop
  refine ⟨t, ht, ?_⟩
  rw [kdfaLoop, Exec.bind_ok hrun]
  rfl

/-! ### The surplus bits -/

theorem surplus_mask (r : Fin 8) (hr : r.val ≠ 0) :
    ((0xFF : UInt8) >>> (8 - UInt32.ofNat r.val).toUInt8).toNat = 2 ^ r.val - 1 := by
  revert r
  decide

/-- Masking the leading octet keeps its low bits. -/
theorem and_surplus_mask (bits : UInt32) (hbits : bits.toNat % 8 ≠ 0) (b : UInt8) :
    b &&& ((0xFF : UInt8) >>> (8 - bits % 8).toUInt8) = lowBits (bits.toNat % 8) b := by
  have hrem : bits % 8 = UInt32.ofNat (bits.toNat % 8) := by
    apply UInt32.toNat_inj.1
    rw [UInt32.toNat_mod, UInt32.toNat_ofNat_of_lt' (show bits.toNat % 8 < 4294967296 by omega)]
    rfl
  have hmask := surplus_mask ⟨bits.toNat % 8, by omega⟩ hbits
  apply UInt8.toNat_inj.1
  have hlt : b.toNat % 2 ^ (bits.toNat % 8) < 256 :=
    Nat.lt_of_le_of_lt (Nat.mod_le _ _) b.toNat_lt
  rw [hrem, UInt8.toNat_and, hmask, Nat.and_two_pow_sub_one_eq_mod, lowBits,
    UInt8.toNat_ofNat_of_lt' hlt]

theorem rem_ne_zero_iff (bits : UInt32) : bits % 8 ≠ 0 ↔ bits.toNat % 8 ≠ 0 := by
  rw [ne_eq, ← UInt32.toNat_inj, UInt32.toNat_mod]
  exact Iff.rfl

/-- The mask changes the first byte of a nonempty output and nothing else. -/
theorem kdfaMask_eq (bits : UInt32) (out : Bytes) (s : KdfaState) :
    ∃ out', kdfaMask bits out s = (.ok out', s) ∧ out'.length = out.length ∧
      ∀ i : ℕ, out'[i]? = out[i]?.map fun b =>
        if i = 0 ∧ bits.toNat % 8 ≠ 0 then lowBits (bits.toNat % 8) b else b := by
  cases out with
  | nil => exact ⟨[], by simp [kdfaMask], rfl, fun i => by simp⟩
  | cons b out =>
      by_cases hbits : bits.toNat % 8 ≠ 0
      · refine ⟨lowBits (bits.toNat % 8) b :: out, ?_, rfl, ?_⟩
        · have hrem := (rem_ne_zero_iff bits).2 hbits
          rw [kdfaMask, if_pos ⟨hrem, by simp⟩, ← and_surplus_mask bits hbits b]
          rfl
        · intro i
          cases i with
          | zero => simp [hbits]
          | succ i => simp
      · refine ⟨b :: out, ?_, rfl, fun i => by simp [hbits]⟩
        rw [kdfaMask, if_neg fun h => hbits ((rem_ne_zero_iff bits).1 h.1)]
        rfl

/-- A numeral whose first byte keeps only the surplus bits is below `2 ^ m`. -/
theorem value_lt_two_pow (m : ℕ) (out : Bytes) (hlength : out.length = m ⌈/⌉ 8)
    (hfirst : ∀ b, out[0]? = some b → m % 8 ≠ 0 → b.toNat < 2 ^ (m % 8)) :
    BigEndian.value out < 2 ^ m := by
  rw [Nat.ceilDiv_eq_add_pred_div] at hlength
  cases out with
  | nil => exact Nat.two_pow_pos m
  | cons b l =>
      rw [List.length_cons] at hlength
      have hpow : (256 : ℕ) = 2 ^ 8 := rfl
      by_cases hrem : m % 8 = 0
      · have hm : m = 8 * (l.length + 1) := by omega
        calc BigEndian.value (b :: l) < 256 ^ (l.length + 1) := BigEndian.value_lt _
          _ = 2 ^ m := by rw [hpow, ← Nat.pow_mul, ← hm]
      · have hm : m = m % 8 + 8 * l.length := by omega
        have hb : b.toNat + 1 ≤ 2 ^ (m % 8) := hfirst b rfl hrem
        calc BigEndian.value (b :: l) < b.toNat * 256 ^ l.length + 256 ^ l.length :=
              Nat.add_lt_add_left (BigEndian.value_lt l) _
          _ = (b.toNat + 1) * 256 ^ l.length := by ring
          _ ≤ 2 ^ (m % 8) * 256 ^ l.length := Nat.mul_le_mul_right _ hb
          _ = 2 ^ (m % 8 + 8 * l.length) := by rw [hpow, ← Nat.pow_mul, ← Nat.pow_add]
          _ = 2 ^ m := by rw [← hm]

/-! ### KDFa -/

/-- The output of a supported hash: its length, every byte, and its value. -/
structure KeyMaterial (P : Purecrypto) (d : Digest) (key label contextU contextV : Bytes)
    (bits : UInt32) (out : Bytes) : Prop where
  length : out.length = bits.toNat ⌈/⌉ 8
  byte : ∀ i < out.length, out[i]? = some (kdfaByte P d key label contextU contextV bits i)
  value : BigEndian.value out < 2 ^ bits.toNat

theorem lowBits_lt (r : ℕ) (b : UInt8) : (lowBits r b).toNat < 2 ^ r := by
  have hlt : b.toNat % 2 ^ r < 256 := Nat.lt_of_le_of_lt (Nat.mod_le _ _) b.toNat_lt
  rw [lowBits, UInt8.toNat_ofNat_of_lt' hlt]
  exact Nat.mod_lt _ (Nat.two_pow_pos r)

theorem kdfa_of_some {σ : Type} (hd : Digest.ofAlg alg = some d) (s : σ) :
    ∃ out, kdfa P alg key label contextU contextV bits s = (.ok out, s) ∧
      KeyMaterial P d key label contextU contextV bits out := by
  have hn : bits.toNat ⌈/⌉ 8 < 4294967296 :=
    Nat.lt_of_le_of_lt (ceilDiv_le_self (by omega)) bits.toNat_lt
  obtain ⟨t, ht, hloop⟩ := @kdfaLoop_eq P alg d key label contextU contextV bits hd _ hn
  have henough : bits.toNat ⌈/⌉ 8 ≤ t.out.length := by
    rw [ht.length, ← ceilDiv_le_iff_le_mul d.size_pos]
  have hcut : (t.out.take (bits.toNat ⌈/⌉ 8)).length = bits.toNat ⌈/⌉ 8 := by
    rw [List.length_take, Nat.min_eq_left henough]
  obtain ⟨out, hmask, hlength, hbyte⟩ := kdfaMask_eq bits (t.out.take (bits.toNat ⌈/⌉ 8)) t
  rw [hcut] at hlength
  have hout : ∀ i < out.length,
      out[i]? = some (kdfaByte P d key label contextU contextV bits i) := by
    intro i hi
    rw [hlength] at hi
    rw [hbyte, List.getElem?_take_of_lt hi, ht.byte i (by rw [← ht.length]; omega), Option.map_some]
    rfl
  refine ⟨out, ?_, hlength, hout, ?_⟩
  · rw [kdfa, Exec.alone_apply, Exec.bind_ok hloop, Exec.get_bind, hmask]
  · apply value_lt_two_pow _ _ hlength
    intro b hb hrem
    have hpos : 0 < out.length := (List.getElem?_eq_some_iff.1 hb).1
    have hfirst := hout 0 hpos
    rw [hb, Option.some_inj, kdfaByte, if_pos ⟨rfl, hrem⟩] at hfirst
    rw [hfirst]
    exact lowBits_lt _ _

theorem kdfa_of_none {σ : Type} (hd : Digest.ofAlg alg = none) (hbits : 0 < bits.toNat) (s : σ) :
    kdfa P alg key label contextU contextV bits s =
      (.err (.usage "unsupported HMAC hash algorithm"), s) := by
  have hpos : 0 < bits.toNat ⌈/⌉ 8 := by
    rw [lt_ceilDiv (by omega)]
    omega
  have hround : kdfaRound P alg key label contextU contextV bits ⟨0, []⟩ =
      (.err (.usage "unsupported HMAC hash algorithm"), ⟨0, []⟩) := by
    simp [kdfaRound, hmacParts, hd]
  have hloop : kdfaLoop P alg key label contextU contextV bits (bits.toNat ⌈/⌉ 8) ⟨0, []⟩ =
      (.err (.usage "unsupported HMAC hash algorithm"), ⟨0, []⟩) := by
    rw [kdfaLoop, Exec.bind_err (Exec.whileLoop_err (by simpa using hpos) hround _)]
  rw [kdfa, Exec.alone_apply, Exec.bind_err hloop]

/-- KDFa is counter mode: one round for each block of the output, and every
byte of it a byte of its block. -/
theorem kdfa_spec {σ : Type} (P : Purecrypto) (alg : Alg) (key label contextU contextV : Bytes)
    (bits : UInt32) (s : σ) :
    (∀ d, Digest.ofAlg alg = some d →
      (kdfaLoop P alg key label contextU contextV bits (bits.toNat ⌈/⌉ 8) ⟨0, []⟩).1 =
        .ok ((bits.toNat ⌈/⌉ 8) ⌈/⌉ d.size) ∧
      ∃ out, kdfa P alg key label contextU contextV bits s = (.ok out, s) ∧
        KeyMaterial P d key label contextU contextV bits out) ∧
    (Digest.ofAlg alg = none → 0 < bits.toNat →
      ∃ e, kdfa P alg key label contextU contextV bits s = (.err e, s)) := by
  refine ⟨?_, ?_⟩
  · intro d hd
    have hn : bits.toNat ⌈/⌉ 8 < 4294967296 :=
      Nat.lt_of_le_of_lt (ceilDiv_le_self (by omega)) bits.toNat_lt
    obtain ⟨t, -, hloop⟩ := @kdfaLoop_eq P alg d key label contextU contextV bits hd _ hn
    exact ⟨by rw [hloop], kdfa_of_some hd s⟩
  · intro hd hbits
    exact ⟨_, kdfa_of_none hd hbits s⟩

end

/-! ### The session key -/

/-- What a session is started with. -/
structure SessionStart where
  handle : Handle
  hashAlg : Alg
  nonceTpm : Bytes
  nonceCaller : Bytes
  attributes : SessionAttributes
  bindAuth : Bytes
  bindName : Bytes
  salt : Bytes
  deriving DecidableEq

namespace SessionStart

/-- The outcome of building the session. -/
def outcome (P : Purecrypto) (c : SessionStart) : Outcome Error Session :=
  (Session.new P c.handle c.hashAlg c.nonceTpm c.nonceCaller c.attributes c.bindAuth c.bindName
    c.salt ()).1

def Unbound (c : SessionStart) : Prop := c.bindName = []

def Unsalted (c : SessionStart) : Prop := c.salt = []

/-- The session with a given key. -/
def session (c : SessionStart) (sessionKey : Bytes) : Session where
  handle := c.handle
  hashAlg := c.hashAlg
  attributes := c.attributes
  sessionKey := sessionKey
  nonceTpm := c.nonceTpm
  nonceCaller := c.nonceCaller
  boundName := c.bindName

/-- What KDFa makes of the auth value of the bind entity and the salt, under
the label "ATH". -/
def derived (P : Purecrypto) (c : SessionStart) (size : ℕ) : Outcome Error Bytes :=
  (crypto.kdfa P c.hashAlg (c.bindAuth ++ c.salt) [0x41, 0x54, 0x48] c.nonceTpm c.nonceCaller
    (UInt32.ofNat (8 * size)) ()).1

/-- The session is built, with the key that its being bound or salted calls for. -/
def KeyAgrees (P : Purecrypto) (c : SessionStart) : Prop :=
  ∃ size key, crypto.digestSize c.hashAlg = .ok size ∧ c.outcome P = .ok (c.session key) ∧
    (key = [] ↔ c.Unbound ∧ c.Unsalted) ∧
    (¬(c.Unbound ∧ c.Unsalted) →
      c.derived P size = .ok key ∧ key.length = size ∧
      (∀ authValue objectName, (c.session key).hmacKey authValue objectName ≠ []) ∧
      (¬c.Unbound → ∀ authValue, (c.session key).hmacKey authValue c.bindName = key))

/-- The session has a bind entity, but neither it nor a salt gives KDFa a key. -/
def BoundWithoutAuth (c : SessionStart) : Prop :=
  ¬c.Unbound ∧ c.bindAuth = [] ∧ c.Unsalted

variable {P : Purecrypto} {c : SessionStart} {d : Digest}

theorem hmacKey_ne_nil {key : Bytes} (hkey : key ≠ []) (authValue objectName : Bytes) :
    (c.session key).hmacKey authValue objectName ≠ [] := by
  rw [Session.hmacKey]
  show (if _ then key ++ authValue else key) ≠ []
  split
  · simp [hkey]
  · exact hkey

theorem hmacKey_bound (hbound : ¬c.Unbound) (key authValue : Bytes) :
    (c.session key).hmacKey authValue c.bindName = key := by
  have hname : c.bindName ≠ [] := hbound
  rw [Session.hmacKey]
  simp [session, hname]

/-- Without an auth value and a salt the key is empty. -/
theorem outcome_of_empty (hd : Digest.ofAlg c.hashAlg = some d) (hauth : c.bindAuth = [])
    (hsalt : c.salt = []) : c.outcome P = .ok (c.session []) := by
  rw [outcome, hauth, hsalt, Session.new_unkeyed (crypto.digestSize_of_some hd)]
  rfl

/-- With either of them the key is what KDFa derives, and fills a digest. -/
theorem outcome_of_keyed (hd : Digest.ofAlg c.hashAlg = some d)
    (hkeyed : ¬(c.bindAuth = [] ∧ c.salt = [])) :
    ∃ key, c.derived P d.size = .ok key ∧ key.length = d.size ∧
      c.outcome P = .ok (c.session key) := by
  have hlt := d.size_lt
  have hbits : (UInt32.ofNat (8 * d.size)).toNat = 8 * d.size :=
    UInt32.toNat_ofNat_of_lt' (show 8 * d.size < 4294967296 by omega)
  obtain ⟨key, hkdfa, hmaterial⟩ := @kdfa_of_some P c.hashAlg d (c.bindAuth ++ c.salt)
    [0x41, 0x54, 0x48] c.nonceTpm c.nonceCaller (UInt32.ofNat (8 * d.size)) Unit hd ()
  have hlength : key.length = d.size := by
    rw [hmaterial.length, hbits, Nat.ceilDiv_eq_add_pred_div]
    omega
  refine ⟨key, by rw [derived, hkdfa], hlength, ?_⟩
  have hempty : ¬(c.bindAuth.isEmpty ∧ c.salt.isEmpty) := by
    rw [List.isEmpty_iff, List.isEmpty_iff]
    exact hkeyed
  rw [outcome, Session.new, crypto.digestSize_of_some hd, Exec.ofExcept_ok_bind, if_neg hempty,
    Nat.mul_comm, Exec.bind_ok hkdfa]
  rfl

/-- The key agrees exactly off the sessions bound to an entity without an auth value. -/
theorem keyAgrees_iff (P : Purecrypto) (c : SessionStart)
    (hsupported : (Digest.ofAlg c.hashAlg).isSome) (hunbound : c.bindName = [] → c.bindAuth = []) :
    c.KeyAgrees P ↔ ¬c.BoundWithoutAuth := by
  obtain ⟨d, hd⟩ := Option.isSome_iff_exists.1 hsupported
  have hsize := crypto.digestSize_of_some hd
  constructor
  · rintro ⟨size, key, -, hout, hkey, -⟩ ⟨hbound, hauth, hsalt⟩
    -- the key is empty although the session is bound
    rw [outcome_of_empty hd hauth hsalt, Outcome.ok.injEq] at hout
    have hnil : key = [] := (congrArg Session.sessionKey hout).symm
    exact hbound (hkey.1 hnil).1
  · intro h
    by_cases hkeyed : c.bindAuth = [] ∧ c.salt = []
    · have hplain : c.Unbound ∧ c.Unsalted := by
        refine ⟨?_, hkeyed.2⟩
        by_contra hbound
        exact h ⟨hbound, hkeyed.1, hkeyed.2⟩
      exact ⟨d.size, [], hsize, outcome_of_empty hd hkeyed.1 hkeyed.2, by simp [hplain],
        fun hnot => absurd hplain hnot⟩
    · obtain ⟨key, hderived, hlength, hout⟩ := outcome_of_keyed (P := P) hd hkeyed
      have hne : key ≠ [] := by
        rintro rfl
        have hpos := d.size_pos
        rw [List.length_nil] at hlength
        omega
      have hnot : ¬(c.Unbound ∧ c.Unsalted) := fun hplain =>
        hkeyed ⟨hunbound hplain.1, hplain.2⟩
      exact ⟨d.size, key, hsize, hout, by simp [hne, hnot], fun _ => ⟨hderived, hlength,
        hmacKey_ne_nil hne, fun hbound => hmacKey_bound hbound key⟩⟩

/-- A session bound to an entity, with the auth value it has. -/
def boundStart (bindAuth : Bytes) : SessionStart where
  handle := ⟨0x0200_0000⟩
  hashAlg := Alg.sha256
  nonceTpm := List.replicate 32 0xAA
  nonceCaller := List.replicate 32 0xBB
  attributes := ⟨SessionAttributes.continueSession⟩
  bindAuth := bindAuth
  bindName := [0x40, 0x00, 0x00, 0x01]
  salt := []

/-- HMAC with SHA-256 over the one block of the derivation. -/
def boundCrypto : Purecrypto :=
  .ofValues []
    [((.sha256, [0x61], [0, 0, 0, 1] ++ [0x41, 0x54, 0x48] ++ [0] ++ List.replicate 32 0xAA ++
        List.replicate 32 0xBB ++ [0, 0, 1, 0]),
      [0x94, 0xAD, 0x46, 0x0A, 0xE9, 0x0C, 0x7D, 0x00, 0x05, 0xC7, 0xC6, 0xC0, 0x37, 0x62,
        0xA1, 0x37, 0xF8, 0x0E, 0xAB, 0xD3, 0x22, 0xF1, 0x6C, 0x5F, 0x0A, 0xE8, 0x4F,
        0x08, 0xC3, 0x1F, 0xAA, 0x5B])]

theorem keyAgrees_boundStart : (boundStart [0x61]).KeyAgrees boundCrypto :=
  (keyAgrees_iff boundCrypto (boundStart [0x61]) rfl (by simp [boundStart])).2 fun h =>
    List.cons_ne_nil _ _ h.2.1

/-- The owner hierarchy with its empty auth value as bind entity. -/
theorem not_keyAgrees_boundStart : ¬(boundStart []).KeyAgrees boundCrypto := by
  rintro ⟨size, key, -, hout, hkey, -⟩
  rw [outcome_of_empty (d := .sha256) rfl rfl rfl, Outcome.ok.injEq] at hout
  have hnil : key = [] := (congrArg Session.sessionKey hout).symm
  exact List.cons_ne_nil _ _ (hkey.1 hnil).1

end SessionStart

end PurecryptoTpm
