import PurecryptoTpm.Codec

/-!
The public area of an object. The crate writes these areas and never reads
one, so the reader here follows their grammar: the type of the object says
which parameters and which unique field stand in the area, and the symmetric
algorithm says whether it has key bits and a mode. It reads every consistent
area back, but for what the encoding leaves out. A consistent area has the same
object type in both unions and no scheme with details.
-/

namespace PurecryptoTpm

/-! ### The grammar -/

def readSymDefObject : Exec Error Reader SymDefObject := do
  let algorithm ← unmarshal
  if algorithm ≠ Alg.null then do
    let keyBits ← Reader.u16
    let mode ← unmarshal
    pure { algorithm := algorithm, keyBits := keyBits, mode := mode }
  else
    pure SymDefObject.null

/-- The selector of a scheme that has no details. -/
def readNullScheme : Exec Error Reader Alg := do
  let scheme ← unmarshal
  if scheme = Alg.null then pure scheme
  else Exec.throw (.malformed "scheme with details")

/-- The parameters of an object of the type. -/
def readPublicParms (type_ : Alg) : Exec Error Reader PublicParms :=
  if type_ = Alg.keyedhash then do
    let scheme ← readNullScheme
    pure (.keyedHash scheme)
  else if type_ = Alg.ecc then do
    let symmetric ← readSymDefObject
    let scheme ← readNullScheme
    let curve ← Reader.u16
    let kdf ← readNullScheme
    pure (.ecc symmetric scheme curve kdf)
  else
    Exec.throw (.malformed "object type")

/-- The unique field of an object of the type. -/
def readPublicId (type_ : Alg) : Exec Error Reader PublicId :=
  if type_ = Alg.keyedhash then do
    let d ← unmarshal
    pure (.keyedHash d)
  else if type_ = Alg.ecc then do
    let x ← unmarshal
    let y ← unmarshal
    pure (.ecc x y)
  else
    Exec.throw (.malformed "object type")

def readPublic : Exec Error Reader Public := do
  let type_ ← unmarshal
  let nameAlg ← unmarshal
  let attributes ← unmarshal
  let authPolicy ← unmarshal
  let parameters ← readPublicParms type_
  let unique ← readPublicId type_
  pure
    { type_ := type_
      nameAlg := nameAlg
      attributes := attributes
      authPolicy := authPolicy
      parameters := parameters
      unique := unique }

/-! ### Consistent areas -/

/-- Key bits and mode of an algorithm that has none are forgotten. -/
def SymDefObject.canonical (s : SymDefObject) : SymDefObject :=
  if s.algorithm = Alg.null then SymDefObject.null else s

namespace PublicParms

def canonical : PublicParms → PublicParms
  | keyedHash scheme => keyedHash scheme
  | ecc symmetric scheme curve kdf => ecc symmetric.canonical scheme curve kdf

/-- Parameters of an object of the type, with null schemes. -/
def Of (type_ : Alg) : PublicParms → Prop
  | keyedHash scheme => type_ = Alg.keyedhash ∧ scheme = Alg.null
  | ecc _ scheme _ kdf => type_ = Alg.ecc ∧ scheme = Alg.null ∧ kdf = Alg.null

end PublicParms

/-- A unique field of an object of the type. -/
def PublicId.Of (type_ : Alg) : PublicId → Prop
  | keyedHash d => type_ = Alg.keyedhash ∧ d.Wire
  | ecc x y => type_ = Alg.ecc ∧ x.Wire ∧ y.Wire

namespace Public

/-- The area up to the key bits and the mode of a null algorithm. -/
def canonical (p : Public) : Public := { p with parameters := p.parameters.canonical }

structure Consistent (p : Public) : Prop where
  authPolicy : p.authPolicy.Wire
  parameters : p.parameters.Of p.type_
  unique : p.unique.Of p.type_

theorem sealedData_consistent (nameAlg : Alg) : (sealedData nameAlg).Consistent where
  authPolicy := Nat.zero_le _
  parameters := ⟨rfl, rfl⟩
  unique := ⟨rfl, Nat.zero_le _⟩

theorem eccStorageParent_consistent (nameAlg : Alg) : (eccStorageParent nameAlg).Consistent where
  authPolicy := Nat.zero_le _
  parameters := ⟨rfl, rfl, rfl⟩
  unique := ⟨rfl, Nat.zero_le _, Nat.zero_le _⟩

end Public

/-! ### The encodings -/

theorem SymDefObject.toBytes_eq (s : SymDefObject) : toBytes s = toBeBytes s.algorithm.raw ++
    if s.algorithm = Alg.null then [] else toBeBytes s.keyBits ++ toBeBytes s.mode.raw := by
  show (if s.algorithm ≠ Alg.null then marshal s.mode (marshal s.keyBits (marshal s.algorithm []))
    else marshal s.algorithm []) = _
  by_cases h : s.algorithm = Alg.null
  · simp [h, marshal_eq]
  · simp [h, marshal_eq]

/-- The encoding does not see what a canonical area leaves out. -/
theorem SymDefObject.toBytes_canonical (s : SymDefObject) : toBytes s.canonical = toBytes s := by
  by_cases h : s.algorithm = Alg.null
  · rw [canonical, if_pos h, toBytes_eq, toBytes_eq, if_pos h, h]
    rfl
  · rw [canonical, if_neg h]

theorem PublicParms.toBytes_ecc (symmetric : SymDefObject) (scheme : Alg) (curve : UInt16)
    (kdf : Alg) : toBytes (PublicParms.ecc symmetric scheme curve kdf) =
      toBytes symmetric ++ (toBeBytes scheme.raw ++ (toBeBytes curve ++ toBeBytes kdf.raw)) := by
  show marshal kdf (marshal curve (marshal scheme (marshal symmetric []))) = _
  simp only [marshal_eq, toBytes_alg, toBytes_prim, List.nil_append, List.append_assoc]

theorem PublicParms.toBytes_canonical (p : PublicParms) : toBytes p.canonical = toBytes p := by
  cases p with
  | keyedHash scheme => rfl
  | ecc symmetric scheme curve kdf =>
      rw [canonical, toBytes_ecc, toBytes_ecc, SymDefObject.toBytes_canonical]

theorem PublicId.toBytes_ecc (x y : Buffer) :
    toBytes (PublicId.ecc x y) = toBytes x ++ toBytes y := by
  show marshal y (marshal x []) = _
  rw [marshal_eq, marshal_eq, List.nil_append]

theorem Public.toBytes_eq (p : Public) : toBytes p =
    toBytes p.type_ ++ (toBytes p.nameAlg ++ (toBytes p.attributes ++ (toBytes p.authPolicy ++
      (toBytes p.parameters ++ toBytes p.unique)))) := by
  show marshal p.unique (marshal p.parameters (marshal p.authPolicy (marshal p.attributes
    (marshal p.nameAlg (marshal p.type_ []))))) = _
  simp only [marshal_eq, List.nil_append, List.append_assoc]

theorem Public.toBytes_canonical (p : Public) : toBytes p.canonical = toBytes p := by
  rw [toBytes_eq, toBytes_eq, canonical, PublicParms.toBytes_canonical]

/-! ### Reading an area back -/

section Reading

open Reader

theorem readSymDefObject_parses : Parses between Malformed readSymDefObject
    (wireFormat (fun s => s.canonical = s) toBytes) := by
  refine (alg_parses.bind fun algorithm => Parses.ite
    (u16_parses.bind fun keyBits => alg_parses.bind fun mode =>
      Parses.pure (SymDefObject.mk algorithm keyBits mode))
    (Parses.pure SymDefObject.null)).congr fun s w => ?_
  rw [wireFormat, SymDefObject.toBytes_eq]
  refine ⟨fun h => ?_, fun h => ?_⟩
  · obtain ⟨algorithm, _, w, ⟨-, rfl⟩, hrest, rfl⟩ := h
    by_cases hnull : algorithm = Alg.null
    · rw [if_neg (not_not.mpr hnull)] at hrest
      obtain ⟨rfl, rfl⟩ := hrest
      exact ⟨rfl, by rw [hnull]; rfl⟩
    · rw [if_pos hnull] at hrest
      obtain ⟨keyBits, _, _, rfl, ⟨mode, _, _, ⟨-, rfl⟩, ⟨rfl, rfl⟩, rfl⟩, rfl⟩ := hrest
      refine ⟨if_neg hnull, ?_⟩
      rw [if_neg hnull, List.append_nil]
      rfl
  · obtain ⟨hcanonical, rfl⟩ := h
    refine ⟨s.algorithm, _, _, ⟨trivial, rfl⟩, ?_, rfl⟩
    by_cases hnull : s.algorithm = Alg.null
    · rw [SymDefObject.canonical, if_pos hnull] at hcanonical
      rw [if_neg (not_not.mpr hnull), if_pos hnull]
      exact ⟨hcanonical.symm, rfl⟩
    · beta_reduce
      rw [if_pos hnull, if_neg hnull]
      exact ⟨s.keyBits, _, _, rfl, ⟨s.mode, _, [], ⟨trivial, rfl⟩, ⟨rfl, rfl⟩, rfl⟩, by simp⟩

theorem readNullScheme_parses : Parses between Malformed readNullScheme
    (wireFormat (fun scheme => scheme = Alg.null) toBytes) := by
  refine (alg_parses.bind fun scheme => Parses.ite (Parses.pure scheme)
    (Parses.throw ⟨_, rfl⟩)).congr fun scheme w => ?_
  refine ⟨fun h => ?_, fun h => ?_⟩
  · obtain ⟨scheme, _, w, ⟨-, rfl⟩, hrest, rfl⟩ := h
    by_cases hnull : scheme = Alg.null
    · rw [if_pos hnull] at hrest
      obtain ⟨rfl, rfl⟩ := hrest
      exact ⟨hnull, List.append_nil _⟩
    · rw [if_neg hnull] at hrest
      exact hrest.elim
  · obtain ⟨hnull, rfl⟩ := h
    refine ⟨scheme, _, [], ⟨trivial, rfl⟩, ?_, (List.append_nil _).symm⟩
    beta_reduce
    rw [if_pos hnull]
    exact ⟨rfl, rfl⟩

/-- A union is read like the member that the type of the object selects. -/
theorem parses_of_type {α : Type} [Marshal α] (W : Alg → α → Prop)
    {keyedHash ecc : Exec Error Reader α}
    (hkeyedHash : Parses between Malformed keyedHash (wireFormat (W Alg.keyedhash) toBytes))
    (hecc : Parses between Malformed ecc (wireFormat (W Alg.ecc) toBytes))
    (honly : ∀ type_ a, W type_ a → type_ = Alg.keyedhash ∨ type_ = Alg.ecc) (type_ : Alg) :
    Parses between Malformed
      (if type_ = Alg.keyedhash then keyedHash
        else if type_ = Alg.ecc then ecc
        else Exec.throw (.malformed "object type")) (wireFormat (W type_) toBytes) := by
  by_cases hiskeyedHash : type_ = Alg.keyedhash
  · subst hiskeyedHash
    rwa [if_pos rfl]
  · rw [if_neg hiskeyedHash]
    by_cases hisecc : type_ = Alg.ecc
    · subst hisecc
      rwa [if_pos rfl]
    · rw [if_neg hisecc]
      refine (Parses.throw ⟨_, rfl⟩).congr fun a w => ⟨False.elim, fun h => ?_⟩
      rcases honly type_ a h.1 with rfl | rfl
      · exact hiskeyedHash rfl
      · exact hisecc rfl

theorem readPublicParms_parses (type_ : Alg) : Parses between Malformed (readPublicParms type_)
    (wireFormat (fun p => p.Of type_ ∧ p.canonical = p) toBytes) := by
  refine parses_of_type (fun type_ (p : PublicParms) => p.Of type_ ∧ p.canonical = p)
    ?keyedHash ?ecc (fun type_ p h => ?only) type_
  case keyedHash =>
    refine (readNullScheme_parses.bind fun scheme =>
      Parses.pure (PublicParms.keyedHash scheme)).congr fun p w => ⟨fun h => ?_, fun h => ?_⟩
    · obtain ⟨scheme, _, _, ⟨hnull, rfl⟩, ⟨rfl, rfl⟩, rfl⟩ := h
      exact ⟨⟨⟨rfl, hnull⟩, rfl⟩, List.append_nil _⟩
    · obtain ⟨⟨hof, -⟩, rfl⟩ := h
      cases p with
      | keyedHash scheme =>
          exact ⟨scheme, _, [], ⟨hof.2, rfl⟩, ⟨rfl, rfl⟩, (List.append_nil _).symm⟩
      | ecc symmetric scheme curve kdf => exact absurd hof.1 (by decide)
  case ecc =>
    refine (readSymDefObject_parses.bind fun symmetric => readNullScheme_parses.bind fun scheme =>
      u16_parses.bind fun curve => readNullScheme_parses.bind fun kdf =>
        Parses.pure (PublicParms.ecc symmetric scheme curve kdf)).congr
          fun p w => ⟨fun h => ?_, fun h => ?_⟩
    · obtain ⟨symmetric, _, _, ⟨hcanonical, rfl⟩, ⟨scheme, _, _, ⟨hscheme, rfl⟩,
        ⟨curve, _, _, rfl, ⟨kdf, _, _, ⟨hkdf, rfl⟩, ⟨rfl, rfl⟩, rfl⟩, rfl⟩, rfl⟩, rfl⟩ := h
      refine ⟨⟨⟨rfl, hscheme, hkdf⟩, ?_⟩, ?_⟩
      · rw [PublicParms.canonical, hcanonical]
      · rw [PublicParms.toBytes_ecc, List.append_nil]
        rfl
    · obtain ⟨⟨hof, hcanonical⟩, rfl⟩ := h
      cases p with
      | keyedHash scheme => exact absurd hof.1 (by decide)
      | ecc symmetric scheme curve kdf =>
          rw [PublicParms.canonical, PublicParms.ecc.injEq] at hcanonical
          rw [PublicParms.toBytes_ecc]
          exact ⟨symmetric, _, _, ⟨hcanonical.1, rfl⟩, ⟨scheme, _, _, ⟨hof.2.1, rfl⟩,
            ⟨curve, _, _, rfl, ⟨kdf, _, [], ⟨hof.2.2, rfl⟩, ⟨rfl, rfl⟩,
              (List.append_nil _).symm⟩, rfl⟩, rfl⟩, rfl⟩
  case only =>
    cases p with
    | keyedHash scheme => exact .inl h.1.1
    | ecc symmetric scheme curve kdf => exact .inr h.1.1

theorem readPublicId_parses (type_ : Alg) : Parses between Malformed (readPublicId type_)
    (wireFormat (fun p => p.Of type_) toBytes) := by
  refine parses_of_type (fun type_ (p : PublicId) => p.Of type_) ?keyedHash ?ecc
    (fun type_ p h => ?only) type_
  case keyedHash =>
    refine (buffer_parses.bind fun d => Parses.pure (PublicId.keyedHash d)).congr
      fun p w => ⟨fun h => ?_, fun h => ?_⟩
    · obtain ⟨d, _, _, ⟨hd, rfl⟩, ⟨rfl, rfl⟩, rfl⟩ := h
      exact ⟨⟨rfl, hd⟩, List.append_nil _⟩
    · obtain ⟨hof, rfl⟩ := h
      cases p with
      | keyedHash d => exact ⟨d, _, [], ⟨hof.2, rfl⟩, ⟨rfl, rfl⟩, (List.append_nil _).symm⟩
      | ecc x y => exact absurd hof.1 (by decide)
  case ecc =>
    refine (buffer_parses.bind fun x => buffer_parses.bind fun y =>
      Parses.pure (PublicId.ecc x y)).congr fun p w => ⟨fun h => ?_, fun h => ?_⟩
    · obtain ⟨x, _, _, ⟨hx, rfl⟩, ⟨y, _, _, ⟨hy, rfl⟩, ⟨rfl, rfl⟩, rfl⟩, rfl⟩ := h
      exact ⟨⟨rfl, hx, hy⟩, by rw [PublicId.toBytes_ecc, List.append_nil]⟩
    · obtain ⟨hof, rfl⟩ := h
      cases p with
      | keyedHash d => exact absurd hof.1 (by decide)
      | ecc x y =>
          rw [PublicId.toBytes_ecc]
          exact ⟨x, _, _, ⟨hof.2.1, rfl⟩, ⟨y, _, [], ⟨hof.2.2, rfl⟩, ⟨rfl, rfl⟩,
            (List.append_nil _).symm⟩, rfl⟩
  case only =>
    cases p with
    | keyedHash d => exact .inl h.1
    | ecc x y => exact .inr h.1

theorem readPublic_parses : Parses between Malformed readPublic
    (wireFormat (fun p => p.Consistent ∧ p.canonical = p) toBytes) := by
  refine (alg_parses.bind fun type_ => alg_parses.bind fun nameAlg =>
    objectAttributes_parses.bind fun attributes => buffer_parses.bind fun authPolicy =>
      (readPublicParms_parses type_).bind fun parameters => (readPublicId_parses type_).bind
        fun unique => Parses.pure
          (Public.mk type_ nameAlg attributes authPolicy parameters unique)).congr
            fun p w => ⟨fun h => ?_, fun h => ?_⟩
  · obtain ⟨type_, _, _, ⟨-, rfl⟩, ⟨nameAlg, _, _, ⟨-, rfl⟩, ⟨attributes, _, _, ⟨-, rfl⟩,
      ⟨authPolicy, _, _, ⟨hpolicy, rfl⟩, ⟨parameters, _, _, ⟨⟨hof, hcanonical⟩, rfl⟩,
        ⟨unique, _, _, ⟨hunique, rfl⟩, ⟨rfl, rfl⟩, rfl⟩, rfl⟩, rfl⟩, rfl⟩, rfl⟩, rfl⟩ := h
    refine ⟨⟨⟨hpolicy, hof, hunique⟩, ?_⟩, ?_⟩
    · rw [Public.canonical, hcanonical]
    · rw [Public.toBytes_eq, List.append_nil]
  · obtain ⟨⟨hconsistent, hcanonical⟩, rfl⟩ := h
    have hparameters : p.parameters.canonical = p.parameters :=
      congrArg Public.parameters hcanonical
    rw [Public.toBytes_eq]
    exact ⟨p.type_, _, _, ⟨trivial, rfl⟩, ⟨p.nameAlg, _, _, ⟨trivial, rfl⟩,
      ⟨p.attributes, _, _, ⟨trivial, rfl⟩, ⟨p.authPolicy, _, _, ⟨hconsistent.authPolicy, rfl⟩,
        ⟨p.parameters, _, _, ⟨⟨hconsistent.parameters, hparameters⟩, rfl⟩,
          ⟨p.unique, _, [], ⟨hconsistent.unique, rfl⟩, ⟨rfl, rfl⟩, (List.append_nil _).symm⟩,
            rfl⟩, rfl⟩, rfl⟩, rfl⟩, rfl⟩

end Reading

namespace Public

variable {p : Public}

theorem canonical_canonical (p : Public) : p.canonical.canonical = p.canonical := by
  obtain ⟨type_, nameAlg, attributes, authPolicy, parameters, unique⟩ := p
  cases parameters with
  | keyedHash scheme => rfl
  | ecc symmetric scheme curve kdf =>
      have hsymmetric : symmetric.canonical.canonical = symmetric.canonical := by
        by_cases hnull : symmetric.algorithm = Alg.null
        · rw [SymDefObject.canonical, SymDefObject.canonical, if_pos hnull]
          rfl
        · rw [SymDefObject.canonical, SymDefObject.canonical, if_neg hnull, if_neg hnull]
      simp only [canonical, PublicParms.canonical, hsymmetric]

theorem Consistent.canonical (h : p.Consistent) : p.canonical.Consistent where
  authPolicy := h.authPolicy
  parameters := by
    obtain ⟨type_, nameAlg, attributes, authPolicy, parameters, unique⟩ := p
    cases parameters with
    | keyedHash scheme => exact h.parameters
    | ecc symmetric scheme curve kdf => exact h.parameters
  unique := h.unique

theorem Consistent.read (h : p.Consistent) (pre s : Bytes) :
    readPublic (.between pre (toBytes p ++ s)) =
      (.ok p.canonical, .between (pre ++ toBytes p) s) := by
  have hcomplete := readPublic_parses.complete ⟨⟨h.canonical, p.canonical_canonical⟩, rfl⟩ pre s
  rwa [p.toBytes_canonical] at hcomplete

end Public

/-- A reader that goes by the selectors in the bytes recovers every consistent
area, whatever follows it, but for the key bits and the mode of a null
algorithm. So no two areas that differ in anything else have the same bytes. -/
theorem public_uniquelyDecodable (p : Public) (h : p.Consistent) :
    (∀ pre s, readPublic (.between pre (toBytes p ++ s)) =
      (.ok p.canonical, .between (pre ++ toBytes p) s)) ∧
    ∀ q : Public, q.Consistent → q.canonical ≠ p.canonical → toBytes q ≠ toBytes p := by
  refine ⟨h.read, fun q hq hne heq => hne ?_⟩
  have hread := hq.read [] []
  rw [heq, h.read [] []] at hread
  exact (Outcome.ok.inj (Prod.mk.inj hread).1).symm

theorem public_uniquelyDecodable_templates :
    (readPublic (.between [] (toBytes (Public.eccStorageParent Alg.sha256) ++ [0xFF]))).1 =
      .ok (Public.eccStorageParent Alg.sha256) ∧
    toBytes (Public.sealedData Alg.sha256) ≠ toBytes (Public.eccStorageParent Alg.sha256) := by
  obtain ⟨hread, hdiffer⟩ :=
    public_uniquelyDecodable _ (Public.eccStorageParent_consistent Alg.sha256)
  refine ⟨?_, hdiffer _ (Public.sealedData_consistent Alg.sha256) (by decide)⟩
  rw [hread]
  rfl

end PurecryptoTpm
