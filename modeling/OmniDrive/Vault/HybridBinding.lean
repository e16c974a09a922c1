import OmniDrive.Crypto.Symbolic
import OmniDrive.Library.Text
import OmniDrive.Library.Transcript
import OmniDrive.Vault.DeviceWraps

/-!
# What a hybrid wrap is bound to

The wrapping key of `hybrid.rs` is derived from both shared secrets and from a transcript of the
context, the ML-KEM ciphertext and the encapsulation key. With an injective key derivation and an
ideal key wrap, a wrap opens just with the inputs it was made with.
-/

namespace OmniDrive

open ByteFields StatementProgram Text Transcripts

variable {P : Primitives}

/-! ## Ideal primitives -/

/-- AES-KW as an ideal wrap: what opens under a key is a wrap under this key, and wraps under
different keys differ. -/
structure Primitives.IdealWrap (P : Primitives) : Prop where
  kwUnwrap_eq_some : ∀ k w m, P.kwUnwrap k w = some m ↔ w = P.kwWrap k m
  kwWrap_inj : ∀ {k k' m m'}, P.kwWrap k m = P.kwWrap k' m' → k = k'

/-- HKDF is injective on its input, and an encapsulation has the length of ML-KEM-768. -/
structure HybridPrimitives.Binding (H : HybridPrimitives P) : Prop where
  hkdf_inj : ∀ {salt x x' m m' info info'},
    H.hkdf salt x m info = H.hkdf salt x' m' info' → x = x' ∧ m = m' ∧ info = info'
  length_ciphertext : ∀ ek n, (H.encapsulate ek n).1.length = Hybrid.mlKem768CiphertextLen

/-- What opens under a key is a wrap of the result. -/
theorem Primitives.IdealWrap.unwrapKey_eq_ok (ideal : P.IdealWrap) {k m : P.Key} {w : P.Wrapped} :
    unwrapKey k w = .ok m ↔ w = wrapKey k m := by
  rw [wrapKey, ← ideal.kwUnwrap_eq_some, unwrapKey]
  cases P.kwUnwrap k w with
  | none => simp
  | some m' => simp

/-- A wrap determines its two keys. -/
theorem Primitives.IdealWrap.wrapKey_inj (ideal : P.IdealWrap) {k k' m m' : P.Key} :
    wrapKey k m = wrapKey k' m' ↔ k = k' ∧ m = m' := by
  constructor
  · intro h
    obtain rfl := ideal.kwWrap_inj h
    have hopen := ideal.unwrapKey_eq_ok.mpr h
    rw [ideal.unwrapKey_eq_ok.mpr (rfl : wrapKey k m = wrapKey k m)] at hopen
    exact ⟨rfl, Except.ok.inj hopen⟩
  · rintro ⟨rfl, rfl⟩
    rfl

/-! ## The transcript -/

namespace Hybrid

variable {ctx ctx' : HybridWrapContext} {kyberCt kyberCt' theirEk theirEk' : Bytes}

/-- Fields that are appended one after another make a transcript. -/
theorem foldl_appendField (fields : List Bytes) (info : Bytes) :
    fields.foldl appendField info = info ++ transcript 4 fields := by
  induction fields generalizing info with
  | nil => rw [List.foldl_nil, transcript_nil, List.append_nil]
  | cons field rest ih =>
    rw [List.foldl_cons, ih, transcript_cons, appendField, frame, List.append_assoc,
      List.append_assoc, List.append_assoc]

/-- The fields of a context. -/
def contextFields (ctx : HybridWrapContext) : List Bytes :=
  [ctx.version.toUTF8.toList, ctx.vaultId.toUTF8.toList, ctx.deviceId.toUTF8.toList]

/-- The fields that the wrapping key is bound to, in their order. -/
def transcriptFields (ctx : HybridWrapContext) (kyberCt theirEk : Bytes) : List Bytes :=
  contextFields ctx ++ [kyberCt, theirEk]

/-- The fields of a context are shorter than 2³² bytes. -/
def ContextFits (ctx : HybridWrapContext) : Prop := Fits 4 (contextFields ctx)

/-- The key derivation takes the transcript of these fields. -/
theorem deriveHybridKek_eq (H : HybridPrimitives P) (x m : P.Key) (kyberCt theirEk : Bytes)
    (ctx : HybridWrapContext) : deriveHybridKek H x m kyberCt theirEk ctx =
      H.hkdf hybridWrapSalt x m ((transcriptFields ctx kyberCt theirEk).foldl appendField []) := rfl

/-- No two lists of fields have the same transcript. -/
theorem appended_inj {fields fields' : List Bytes} (hfits : Fits 4 fields)
    (hfits' : Fits 4 fields') (h : fields.foldl appendField [] = fields'.foldl appendField []) :
    fields = fields' := by
  rw [foldl_appendField, foldl_appendField, List.nil_append, List.nil_append] at h
  exact transcript_inj (by decide) hfits hfits' h

theorem ContextFits.fields (hctx : ContextFits ctx) (hct : kyberCt.length < 256 ^ 4)
    (hek : theirEk.length < 256 ^ 4) : Fits 4 (transcriptFields ctx kyberCt theirEk) := by
  intro field hfield
  rcases List.mem_append.mp hfield with hcontext | hkeys
  · exact hctx field hcontext
  · rcases List.mem_pair.mp hkeys with rfl | rfl
    · exact hct
    · exact hek

/-- The fields determine the context, the ciphertext and the encapsulation key. -/
theorem transcriptFields_inj :
    transcriptFields ctx kyberCt theirEk = transcriptFields ctx' kyberCt' theirEk' ↔
      ctx = ctx' ∧ kyberCt = kyberCt' ∧ theirEk = theirEk' := by
  obtain ⟨version, vaultId, deviceId⟩ := ctx
  obtain ⟨version', vaultId', deviceId'⟩ := ctx'
  simp only [transcriptFields, contextFields, List.cons_append, List.nil_append, List.cons.injEq,
    toUTF8_toList_inj, HybridWrapContext.mk.injEq, and_true, and_assoc]

end Hybrid

/-! ## Wrapping and unwrapping -/

namespace Hybrid

variable {H : HybridPrimitives P} {x vaultKey vaultKey' : P.Key} {ek dk : Bytes}
  {ctx : HybridWrapContext} {draw : ℕ} {blob : HybridBlob P}

/-- A wrap is made for every encapsulation key of the length of ML-KEM-768. -/
theorem hybridWrapVaultKey_eq_ok : hybridWrapVaultKey H x ek vaultKey ctx draw = .ok blob ↔
    ek.length = Identity.mlKem768EncapsKeyLen ∧
      blob = ⟨(H.encapsulate ek draw).1, wrapKey (deriveHybridKek H x (H.encapsulate ek draw).2
        (H.encapsulate ek draw).1 ek ctx) vaultKey⟩ := by
  rw [hybridWrapVaultKey, mlKemEncapsulate]
  by_cases hlength : ek.length = Identity.mlKem768EncapsKeyLen
  · simp [hlength, eq_comm]
  · simp [hlength]

/-- A secret comes out of ciphertexts of one length only. -/
theorem length_of_mlKemDecapsulate {ct : Bytes} {m : P.Key}
    (h : mlKemDecapsulate H dk ct = .ok m) : ct.length = mlKem768CiphertextLen := by
  rw [mlKemDecapsulate] at h
  split_ifs at h with hdk hct
  exact not_not.mp hct

/-- A blob unwraps where its ciphertext has a secret and its wrap opens under the key derived
from this secret. -/
theorem hybridUnwrapVaultKey_eq_ok : hybridUnwrapVaultKey H x dk ek blob ctx = .ok vaultKey ↔
    ∃ m, mlKemDecapsulate H dk blob.kyberCt = .ok m ∧
      unwrapKey (deriveHybridKek H x m blob.kyberCt ek ctx) blob.wrapped = .ok vaultKey := by
  rw [hybridUnwrapVaultKey]
  cases hsecret : mlKemDecapsulate H dk blob.kyberCt with
  | error e =>
    split_ifs <;> simp
  | ok m =>
    have hlength : blob.kyberCt.length + wrappedKeyLen = hybridWrappedLen := by
      rw [length_of_mlKemDecapsulate hsecret, hybridWrappedLen]
    rw [if_neg (not_not.mpr hlength)]
    cases hopen : unwrapKey (deriveHybridKek H x m blob.kyberCt ek ctx) blob.wrapped with
    | error e => simp [hopen]
    | ok key => simp [hopen]

section Binding

variable {x' : P.Key} {ek' ct' : Bytes} {ctx' : HybridWrapContext}

/-- Keys are equal where everything that they are derived from is. -/
theorem deriveHybridKek_inj (binding : H.Binding) {m m' : P.Key} {ct : Bytes}
    (hfits : Fits 4 (transcriptFields ctx ct ek)) (hfits' : Fits 4 (transcriptFields ctx' ct' ek')) :
    deriveHybridKek H x m ct ek ctx = deriveHybridKek H x' m' ct' ek' ctx' ↔
      x = x' ∧ m = m' ∧ ctx = ctx' ∧ ct = ct' ∧ ek = ek' := by
  rw [deriveHybridKek_eq, deriveHybridKek_eq]
  constructor
  · intro h
    obtain ⟨hx, hm, hinfo⟩ := binding.hkdf_inj h
    exact ⟨hx, hm, transcriptFields_inj.mp (appended_inj hfits hfits' hinfo)⟩
  · rintro ⟨rfl, rfl, rfl, rfl, rfl⟩
    rfl

/-- A wrap opens just with the inputs it was made with, and gives its vault key. -/
theorem unwrap_wrapped_iff (ideal : P.IdealWrap) (binding : H.Binding) (hctx : ContextFits ctx)
    (hctx' : ContextFits ctx') (hek' : ek'.length < 256 ^ 4)
    (h : hybridWrapVaultKey H x ek vaultKey ctx draw = .ok blob) :
    hybridUnwrapVaultKey H x' dk ek' ⟨ct', blob.wrapped⟩ ctx' = .ok vaultKey' ↔
      x' = x ∧ mlKemDecapsulate H dk ct' = .ok (H.encapsulate ek draw).2 ∧ ct' = blob.kyberCt ∧
        ek' = ek ∧ ctx' = ctx ∧ vaultKey' = vaultKey := by
  obtain ⟨hek, rfl⟩ := hybridWrapVaultKey_eq_ok.mp h
  have hct : (H.encapsulate ek draw).1.length < 256 ^ 4 := by
    rw [binding.length_ciphertext]
    decide
  have hlength : ek.length < 256 ^ 4 := by
    rw [hek]
    decide
  have hfits := hctx.fields hct hlength
  rw [hybridUnwrapVaultKey_eq_ok]
  dsimp only
  constructor
  · rintro ⟨m, hsecret, hopen⟩
    have hct' : ct'.length < 256 ^ 4 := by
      rw [length_of_mlKemDecapsulate hsecret]
      decide
    obtain ⟨hkek, rfl⟩ := ideal.wrapKey_inj.mp (ideal.unwrapKey_eq_ok.mp hopen)
    obtain ⟨rfl, rfl, rfl, rfl, rfl⟩ :=
      (deriveHybridKek_inj binding hfits (hctx'.fields hct' hek')).mp hkek
    exact ⟨rfl, hsecret, rfl, rfl, rfl, rfl⟩
  · rintro ⟨rfl, hsecret, rfl, rfl, rfl, rfl⟩
    exact ⟨_, hsecret, ideal.unwrapKey_eq_ok.mpr rfl⟩

/-- With the inputs of a wrap, no other wrapped part gives the vault key. -/
theorem wrapped_of_unwrap (ideal : P.IdealWrap) {wrapped : P.Wrapped}
    (h : hybridWrapVaultKey H x ek vaultKey ctx draw = .ok blob)
    (hsecret : mlKemDecapsulate H dk blob.kyberCt = .ok (H.encapsulate ek draw).2) :
    hybridUnwrapVaultKey H x dk ek ⟨blob.kyberCt, wrapped⟩ ctx = .ok vaultKey ↔
      wrapped = blob.wrapped := by
  obtain ⟨hek, rfl⟩ := hybridWrapVaultKey_eq_ok.mp h
  dsimp only at hsecret
  rw [hybridUnwrapVaultKey_eq_ok, ← ideal.unwrapKey_eq_ok]
  constructor
  · rintro ⟨m, hm, hopen⟩
    obtain rfl := Except.ok.inj (hm.symm.trans hsecret)
    exact hopen
  · intro hopen
    exact ⟨_, hsecret, hopen⟩

end Binding

end Hybrid

namespace Identity

open Hybrid

variable {H : HybridPrimitives P} {mine theirs vaultKey : P.Key} {ek dk : Bytes}
  {vaultId deviceId : String} {draw : ℕ} {blob : HybridBlob P}

/-- The context that a device is given its wrap in. -/
def deviceContext (vaultId deviceId : String) : HybridWrapContext :=
  ⟨hybridWrapVersion, vaultId, deviceId⟩

theorem deviceContext_inj {vaultId' deviceId' : String} :
    deviceContext vaultId deviceId = deviceContext vaultId' deviceId' ↔
      vaultId = vaultId' ∧ deviceId = deviceId' := by
  simp [deviceContext]

/-- A device is given a hybrid wrap under the secret it agrees on. -/
theorem hybridWrapVaultKeyForDevice_eq_ok :
    hybridWrapVaultKeyForDevice H mine theirs ek vaultKey vaultId deviceId draw = .ok blob ↔
      ∃ shared, sharedSecret mine theirs = .ok shared ∧
        hybridWrapVaultKey H shared ek vaultKey (deviceContext vaultId deviceId) draw =
          .ok blob := by
  rw [hybridWrapVaultKeyForDevice, deviceContext]
  cases sharedSecret mine theirs with
  | error e => simp
  | ok shared =>
    rw [Prog.except_ok_bind]
    cases hmade : hybridWrapVaultKey H shared ek vaultKey ⟨hybridWrapVersion, vaultId, deviceId⟩
      draw with
    | error e => simp [hmade]
    | ok made => simp [hmade]

theorem hybridUnwrapVaultKeyFromDevice_eq_ok :
    hybridUnwrapVaultKeyFromDevice H mine theirs dk ek blob vaultId deviceId = .ok vaultKey ↔
      ∃ shared, sharedSecret mine theirs = .ok shared ∧
        hybridUnwrapVaultKey H shared dk ek blob (deviceContext vaultId deviceId) =
          .ok vaultKey := by
  rw [hybridUnwrapVaultKeyFromDevice, deviceContext]
  cases sharedSecret mine theirs with
  | error e => simp
  | ok shared =>
    rw [Prog.except_ok_bind]
    cases hopened : hybridUnwrapVaultKey H shared dk ek blob
      ⟨hybridWrapVersion, vaultId, deviceId⟩ with
    | error e => simp [hopened]
    | ok key => simp [hopened]

end Identity

/-! ## The binding -/

open Hybrid Identity

/-- A hybrid wrap opens with the secrets, the keys, the ciphertext and the context it was made
with, and with nothing else. -/
theorem hybrid_wrap_bound (H : HybridPrimitives P) (ideal : P.IdealWrap) (binding : H.Binding) :
    (∀ fields fields' : List Bytes, Fits 4 fields → Fits 4 fields' →
      (fields.foldl appendField [] = fields'.foldl appendField [] ↔ fields = fields')) ∧
    (∀ (ctx ctx' : HybridWrapContext) (ct ct' ek ek' : Bytes), ContextFits ctx →
      ContextFits ctx' → (∀ field ∈ [ct, ct', ek, ek'], field.length < 256 ^ 4) →
      ((transcriptFields ctx ct ek).foldl appendField [] =
          (transcriptFields ctx' ct' ek').foldl appendField [] ↔
        ctx = ctx' ∧ ct = ct' ∧ ek = ek')) ∧
    (∀ (x : P.Key) (ek : Bytes) (vaultKey : P.Key) (ctx : HybridWrapContext) (draw : ℕ)
      (blob : HybridBlob P), ContextFits ctx →
      hybridWrapVaultKey H x ek vaultKey ctx draw = .ok blob →
      ∀ dk : Bytes,
        (∀ (x' : P.Key) (ek' ct' : Bytes) (ctx' : HybridWrapContext) (vaultKey' : P.Key),
          ContextFits ctx' → ek'.length < 256 ^ 4 →
          (hybridUnwrapVaultKey H x' dk ek' ⟨ct', blob.wrapped⟩ ctx' = .ok vaultKey' ↔
            x' = x ∧ mlKemDecapsulate H dk ct' = .ok (H.encapsulate ek draw).2 ∧
              ct' = blob.kyberCt ∧ ek' = ek ∧ ctx' = ctx ∧ vaultKey' = vaultKey)) ∧
        (mlKemDecapsulate H dk blob.kyberCt = .ok (H.encapsulate ek draw).2 →
          ∀ wrapped, hybridUnwrapVaultKey H x dk ek ⟨blob.kyberCt, wrapped⟩ ctx = .ok vaultKey ↔
            wrapped = blob.wrapped)) ∧
    (∀ (mine theirs : P.Key) (ek : Bytes) (vaultKey : P.Key) (vaultId deviceId : String)
      (draw : ℕ) (blob : HybridBlob P), ContextFits (deviceContext vaultId deviceId) →
      hybridWrapVaultKeyForDevice H mine theirs ek vaultKey vaultId deviceId draw = .ok blob →
      ∀ (mine' theirs' : P.Key) (dk ek' ct' : Bytes) (vaultId' deviceId' : String)
        (vaultKey' : P.Key), ContextFits (deviceContext vaultId' deviceId') →
        ek'.length < 256 ^ 4 →
        (hybridUnwrapVaultKeyFromDevice H mine' theirs' dk ek' ⟨ct', blob.wrapped⟩ vaultId'
            deviceId' = .ok vaultKey' ↔
          (∃ shared, sharedSecret mine theirs = .ok shared ∧
            sharedSecret mine' theirs' = .ok shared) ∧
          mlKemDecapsulate H dk ct' = .ok (H.encapsulate ek draw).2 ∧ ct' = blob.kyberCt ∧
            ek' = ek ∧ vaultId' = vaultId ∧ deviceId' = deviceId ∧ vaultKey' = vaultKey)) := by
  refine ⟨?_, ?_, ?_, ?_⟩
  · intro fields fields' hfits hfits'
    constructor
    · exact appended_inj hfits hfits'
    · rintro rfl
      rfl
  · intro ctx ctx' ct ct' ek ek' hctx hctx' hshort
    simp only [List.forall_mem_cons, List.not_mem_nil, false_implies, implies_true, and_true]
      at hshort
    obtain ⟨hct, hct', hek, hek'⟩ := hshort
    rw [← transcriptFields_inj]
    constructor
    · exact appended_inj (hctx.fields hct hek) (hctx'.fields hct' hek')
    · exact congrArg (List.foldl appendField [])
  · intro x ek vaultKey ctx draw blob hctx hwrap dk
    constructor
    · intro x' ek' ct' ctx' vaultKey' hctx' hek'
      exact unwrap_wrapped_iff ideal binding hctx hctx' hek' hwrap
    · intro hsecret wrapped
      exact wrapped_of_unwrap ideal hwrap hsecret
  · intro mine theirs ek vaultKey vaultId deviceId draw blob hctx hwrap mine' theirs' dk ek' ct'
      vaultId' deviceId' vaultKey' hctx' hek'
    obtain ⟨shared, hshared, hmade⟩ := hybridWrapVaultKeyForDevice_eq_ok.mp hwrap
    rw [hybridUnwrapVaultKeyFromDevice_eq_ok]
    simp only [unwrap_wrapped_iff ideal binding hctx hctx' hek' hmade, deviceContext_inj, hshared,
      Except.ok.injEq]
    constructor
    · rintro ⟨_, hshared', rfl, hsecret, hct, hek, ⟨hvault, hdevice⟩, hkey⟩
      exact ⟨⟨_, rfl, hshared'⟩, hsecret, hct, hek, hvault, hdevice, hkey⟩
    · rintro ⟨⟨_, rfl, hshared'⟩, hsecret, hct, hek, hvault, hdevice, hkey⟩
      exact ⟨_, hshared', rfl, hsecret, hct, hek, ⟨hvault, hdevice⟩, hkey⟩

/-- The symbolic encapsulation; a derived key is the term of its input. -/
def symbolicHybrid : HybridPrimitives symbolic where
  encapsulate ek draw := (List.replicate 1088 (UInt8.ofNat draw),
    (.argon2 "ml-kem" ⟨0, ek.take 1 ++ [UInt8.ofNat draw], 0, 0, 0⟩ : SymbolicKey))
  decapsulate dk ct := (.argon2 "ml-kem" ⟨0, dk.take 1 ++ ct.take 1, 0, 0, 0⟩ : SymbolicKey)
  hkdf salt x m info :=
    (.shared (.shared x m) (.argon2 salt ⟨0, info, 0, 0, 0⟩) : SymbolicKey)

theorem symbolicHybrid_decapsulate (pair draw : ℕ) :
    symbolicHybrid.decapsulate (symbolic.mlKem768 pair).2
        (symbolicHybrid.encapsulate (symbolic.mlKem768 pair).1 draw).1 =
      (symbolicHybrid.encapsulate (symbolic.mlKem768 pair).1 draw).2 := by
  have htake : ∀ (n : ℕ) (b : UInt8), (List.replicate (n + 1) b).take 1 = [b] := fun _ _ => rfl
  change SymbolicKey.argon2 "ml-kem" ⟨0, (List.replicate (2399 + 1) _).take 1 ++
    (List.replicate (1087 + 1) _).take 1, 0, 0, 0⟩ =
      .argon2 "ml-kem" ⟨0, (List.replicate (1183 + 1) _).take 1 ++ _, 0, 0, 0⟩
  rw [htake, htake, htake]

theorem symbolic_idealWrap : symbolic.IdealWrap where
  kwUnwrap_eq_some k w m := Option.ite_none_right_eq_some.trans
    ((and_congr_right fun _ => Option.some_inj).trans (@Prod.ext_iff _ _ w (k, m)).symm)
  kwWrap_inj h := congrArg Prod.fst h

theorem symbolicHybrid_binding : symbolicHybrid.Binding where
  hkdf_inj h := by
    injection h with hsecrets hinput
    injection hsecrets with hx hm
    injection hinput with hsalt hparams
    injection hparams with hversion hinfo
    exact ⟨hx, hm, hinfo⟩
  length_ciphertext ek draw := List.length_replicate

/-- A vault key that is wrapped for a device. -/
def wrapOfDev1 : HybridBlob symbolic where
  kyberCt := List.replicate 1088 3
  wrapped := wrapKey (deriveHybridKek symbolicHybrid (SymbolicKey.random 1)
    (symbolicHybrid.encapsulate (symbolic.mlKem768 5).1 3).2 (List.replicate 1088 3)
    (symbolic.mlKem768 5).1 ⟨hybridWrapVersion, "vault-1", "dev-1"⟩) (SymbolicKey.random 2)

theorem hybrid_wrap_bound_dev1 :
    hybridUnwrapVaultKey symbolicHybrid (SymbolicKey.random 1) (symbolic.mlKem768 5).2
        (symbolic.mlKem768 5).1 wrapOfDev1 ⟨hybridWrapVersion, "vault-1", "dev-1"⟩ =
      .ok (SymbolicKey.random 2) ∧
    ∀ key, hybridUnwrapVaultKey symbolicHybrid (SymbolicKey.random 1) (symbolic.mlKem768 5).2
        (symbolic.mlKem768 5).1 wrapOfDev1 ⟨hybridWrapVersion, "vault-1", "dev-2"⟩ ≠
      .ok key := by
  have hfits : ∀ deviceId, deviceId = "dev-1" ∨ deviceId = "dev-2" →
      ContextFits ⟨hybridWrapVersion, "vault-1", deviceId⟩ := by
    rintro deviceId (rfl | rfl) <;>
    · simp only [ContextFits, contextFields, Fits, toList_eq_data]
      decide
  have hek : (symbolic.mlKem768 5).1.length < 256 ^ 4 := by
    change (List.replicate 1184 _).length < _
    rw [List.length_replicate]
    decide
  have hmade : hybridWrapVaultKey symbolicHybrid (SymbolicKey.random 1) (symbolic.mlKem768 5).1
      (SymbolicKey.random 2) ⟨hybridWrapVersion, "vault-1", "dev-1"⟩ 3 = .ok wrapOfDev1 :=
    hybridWrapVaultKey_eq_ok.mpr ⟨List.length_replicate, rfl⟩
  obtain ⟨hopens, -⟩ := (hybrid_wrap_bound symbolicHybrid symbolic_idealWrap
    symbolicHybrid_binding).2.2.1 _ _ _ _ _ _ (hfits _ (Or.inl rfl)) hmade
    (symbolic.mlKem768 5).2
  constructor
  · have hdk : (symbolic.mlKem768 5).2.length = mlKem768DecapsKeyLen := List.length_replicate
    have hct : (List.replicate 1088 (3 : UInt8)).length = mlKem768CiphertextLen :=
      List.length_replicate
    refine (hopens _ _ _ _ _ (hfits _ (Or.inl rfl)) hek).mpr ⟨rfl, ?_, rfl, rfl, rfl, rfl⟩
    rw [mlKemDecapsulate, if_neg (not_not.mpr hdk), if_neg (not_not.mpr hct)]
    exact congrArg Except.ok (symbolicHybrid_decapsulate 5 3)
  · intro key h
    obtain ⟨-, -, -, -, hcontext, -⟩ := (hopens _ _ _ _ _ (hfits _ (Or.inr rfl)) hek).mp h
    exact absurd (congrArg HybridWrapContext.deviceId hcontext) (by decide)

end OmniDrive
