import Cofferwire.Client.Offline
import Cofferwire.Client.Theorems.Delivery

namespace Cofferwire.Client.Offline

open Reader (Reads Recognizes)

namespace Cursor

theorem array_recognizes (n : Nat) : Recognizes (array n) fun w bytes => w = bytes.toBytes :=
  ByteVec.read_recognizes n (fun _ => BundleError.malformed) .malformed

theorem role_recognizes : Recognizes role fun w r => w = [r.asU8] := by
  let M (b : UInt8) (w : Bytes) (r : Role) : Prop := w = [] ∧ b = r.asU8
  refine ((Recognizes.item _).bind (M := M) fun b => ?_).congr fun w r => ?_
  · split
    case h_1 =>
      refine (Recognizes.pure Role.sender).congr fun w r => and_congr_right fun _ => ?_
      cases r <;> simp [Role.asU8]
    case h_2 =>
      refine (Recognizes.pure Role.recipient).congr fun w r => and_congr_right fun _ => ?_
      cases r <;> simp [Role.asU8]
    case h_3 h0 h1 =>
      refine (Recognizes.throw _).congr fun w r => iff_of_false id ?_
      rintro ⟨_, rfl⟩
      cases r
      case sender    => exact h0 rfl
      case recipient => exact h1 rfl
  · constructor
    · rintro ⟨_, _, _, rfl, ⟨rfl, rfl⟩, rfl⟩
      rfl
    · rintro rfl
      exact ⟨_, _, [], rfl, ⟨rfl, rfl⟩, rfl⟩

theorem ownIdentity_recognizes (bundleType : UInt8) :
    Recognizes (ownIdentity bundleType) fun w identity =>
      (identity.isSome ↔ bundleType = recoveryType) ∧ w = identity.elim [] encodeIdentity := by
  refine (((array_recognizes 32).bind fun _ => (array_recognizes 32).bind fun _ => .pure _).ite
    (.pure none)).congr fun w identity => ?_
  constructor
  · rintro (⟨ht, _, seed, _, rfl, ⟨_, ikm, _, rfl, ⟨rfl, rfl⟩, rfl⟩, rfl⟩ | ⟨ht, rfl, rfl⟩)
    · simp [ht, encodeIdentity]
    · simp [ht]
  · rintro ⟨hi, rfl⟩
    cases identity
    case none => exact .inr ⟨by simpa using hi, rfl, rfl⟩
    case some identity =>
      refine .inl ⟨hi.mp rfl, _, _, _, rfl, ⟨_, _, [], rfl, ⟨rfl, rfl⟩, rfl⟩, ?_⟩
      simp [encodeIdentity]

theorem hint_recognizes :
    Recognizes hint fun w text => text.length ≤ maxRelayHintBytes ∧ w = encodeHint text := by
  refine ((array_recognizes 2).bind fun _ => (Recognizes.throw _).ite (.take _ _)).congr
    fun w text => ?_
  constructor
  · rintro ⟨_, length, text, rfl, ⟨_, ⟨⟩⟩ | ⟨hm, rfl, hl⟩, rfl⟩
    have he : length.toBytes = BigEndian.encode 2 text.length := by
      have hd := BigEndian.encode_decode length.toBytes
      rw [length.size] at hd
      rw [hl, hd]
    exact ⟨hl ▸ Nat.not_lt.mp hm, by rw [encodeHint, he]⟩
  · rintro ⟨hm, rfl⟩
    have hd : BigEndian.decode (BigEndian.encode 2 text.length) = text.length :=
      BigEndian.decode_encode (by rw [maxRelayHintBytes] at hm; omega)
    refine ⟨_, ⟨_, BigEndian.encode_length ..⟩, text, rfl, .inr ⟨?_, rfl, ?_⟩, rfl⟩
    · rw [hd]
      exact Nat.not_lt.mpr hm
    · rw [hd]

theorem hints_recognizes (count : Nat) :
    Recognizes (hints count) fun w list => list.length = count ∧
      (∀ bytes ∈ list, bytes.length ≤ maxRelayHintBytes) ∧ w = list.flatMap encodeHint := by
  induction count
  case zero =>
    refine (Recognizes.pure []).congr fun w list => ?_
    cases list <;> simp
  case succ count hi =>
    refine (hint_recognizes.bind fun hint => hi.bind fun list => .pure (hint :: list)).congr
      fun w list => ?_
    constructor
    · rintro ⟨_, hint, _, ⟨hm, rfl⟩, ⟨_, list, _, ⟨rfl, hl, rfl⟩, ⟨rfl, rfl⟩, rfl⟩, rfl⟩
      exact ⟨rfl, List.forall_mem_cons.mpr ⟨hm, hl⟩, by simp⟩
    · rintro ⟨hl, hm, rfl⟩
      obtain ⟨hint, list, rfl⟩ := List.exists_cons_of_length_eq_add_one hl
      rw [List.forall_mem_cons] at hm
      exact ⟨_, hint, _, ⟨hm.left, rfl⟩, ⟨_, list, [], ⟨Nat.succ.inj hl, hm.right, rfl⟩, ⟨rfl, rfl⟩, rfl⟩,
        by simp⟩

end Cursor

-- What `encodeFields` requires of the hints.
def BundleFields.Bounded (fields : BundleFields) : Prop :=
  fields.relayHints.length ≤ maxRelayHints ∧
  ∀ hint ∈ fields.relayHints, hint.length ≤ maxRelayHintBytes

-- The bytes behind the type.
def BundleFields.body (fields : BundleFields) : Bytes :=
  [fields.role.asU8] ++ (fields.peerPrincipal.asBytes.toBytes ++
    (fields.peerEncryptionPublicKey.asBytes.toBytes ++
    (BigEndian.encode 8 fields.createdAtSecs.toNat ++ (fields.ownIdentity.elim [] encodeIdentity ++
    ([.ofNat fields.relayHints.length] ++ fields.relayHints.flatMap encodeHint)))))

def BundleFields.bundleType (fields : BundleFields) : UInt8 :=
  if fields.ownIdentity.isSome then recoveryType else invitationType

theorem encodeFields_eq_ok :
    encodeFields fields = .ok bytes ↔ fields.Bounded ∧ bytes = fields.bundleType :: fields.body := by
  simp only [encodeFields, Except.ite_error_eq_ok, BundleFields.Bounded, not_exists, not_and,
    Nat.not_lt, and_assoc, Except.ok.injEq, List.append_assoc]
  exact and_congr_right fun _ => and_congr_right fun _ => eq_comm

theorem encodeFields_isError :
    (∃ e, encodeFields fields = .error e) ↔
      8 < fields.relayHints.length ∨ ∃ hint ∈ fields.relayHints, 256 < hint.length := by
  unfold encodeFields
  split
  case isTrue h => exact iff_of_true ⟨_, rfl⟩ (.inl h)
  case isFalse h =>
    split
    case isTrue h => exact iff_of_true ⟨_, rfl⟩ (.inr h)
    case isFalse h' => exact iff_of_false nofun (not_or.mpr ⟨h, h'⟩)

theorem readIdentifiers_recognizes :
    Recognizes readIdentifiers fun w ids =>
      w = ids.fst.asBytes.toBytes ++ ids.snd.asBytes.toBytes := by
  refine ((Cursor.array_recognizes 32).bind fun _ => (Cursor.array_recognizes 32).bind fun _ =>
    .pure _).congr fun w ids => ?_
  constructor
  · rintro ⟨_, queue, _, rfl, ⟨_, bundle, _, rfl, ⟨rfl, rfl⟩, rfl⟩, rfl⟩
    simp
  · rintro rfl
    exact ⟨_, ids.fst.asBytes, _, rfl, ⟨_, ids.snd.asBytes, [], rfl, ⟨rfl, rfl⟩, rfl⟩, by simp⟩

section

variable [Hpke]

-- The key has been checked already.
def Reparses (key : EncryptionPublicKey) : Prop :=
  EncryptionPublicKey.fromBytes key.asBytes = .ok key

theorem fromBytes_eq_ok :
    EncryptionPublicKey.fromBytes bytes = .ok key ↔ key.asBytes = bytes ∧ Reparses key := by
  obtain ⟨key⟩ := key
  unfold Reparses EncryptionPublicKey.fromBytes
  constructor
  · intro h
    split at h <;> cases h
    case h_2 hk => exact ⟨rfl, by rw [hk]⟩
  · rintro ⟨rfl, h⟩
    exact h

-- The parts of the body follow each other.
theorem readBody_recognizes (bundleType : UInt8) :
    Recognizes (readBody bundleType) fun w fields =>
      Reparses fields.peerEncryptionPublicKey ∧ fields.Bounded ∧
      (fields.ownIdentity.isSome ↔ bundleType = recoveryType) ∧ w = fields.body := by
  refine (Cursor.role_recognizes.bind fun role =>
    (Cursor.array_recognizes 32).bind fun principal =>
    (Cursor.array_recognizes 32).bind fun key =>
    (Recognizes.lift _).bind fun publicKey =>
    (Cursor.array_recognizes 8).bind fun created =>
    (Cursor.ownIdentity_recognizes bundleType).bind fun identity =>
    (Recognizes.item _).bind fun count => (Recognizes.throw _).ite <|
      (Cursor.hints_recognizes _).bind fun hints => .pure _).congr fun w fields => ?_
  simp only [Except.mapError_eq_ok, fromBytes_eq_ok]
  constructor
  · rintro ⟨_, role, _, rfl, ⟨_, principal, _, rfl, ⟨_, key, _, rfl, h, rfl⟩, rfl⟩, rfl⟩
    obtain ⟨_, publicKey, _, ⟨rfl, rfl, hk⟩, ⟨_, created, _, rfl, h, rfl⟩, rfl⟩ := h
    obtain ⟨_, identity, _, ⟨hi, rfl⟩, ⟨_, count, _, rfl, h, rfl⟩, rfl⟩ := h
    obtain ⟨_, ⟨⟩⟩ | ⟨hc, _, hints, _, ⟨hl, hm, rfl⟩, ⟨rfl, rfl⟩, rfl⟩ := h
    have ht := (BlobManifest.ofNat_decode_eq_iff₈ created.size).mp rfl
    refine ⟨hk, ⟨hl ▸ Nat.not_lt.mp hc, hm⟩, hi, ?_⟩
    simp only [BundleFields.body, ←ht, hl, UInt8.ofNat_toNat, List.append_nil, List.nil_append]
  · rintro ⟨hk, ⟨hl, hm⟩, hi, rfl⟩
    obtain ⟨role, ⟨principal⟩, publicKey, created, identity, hints⟩ := fields
    have hc : (UInt8.ofNat hints.length).toNat = hints.length := by
      have hl : hints.length ≤ 8 := hl
      rw [UInt8.toNat_ofNat', Nat.mod_eq_of_lt (by omega)]
    have ht : UInt64.ofNat (BigEndian.decode (BigEndian.encode 8 created.toNat)) = created :=
      (BlobManifest.ofNat_decode_eq_iff₈ (BigEndian.encode_length ..)).mpr rfl
    refine ⟨_, role, _, rfl, ⟨_, principal, _, rfl, ⟨_, publicKey.asBytes, _, rfl,
      ⟨[], publicKey, _, ⟨rfl, rfl, hk⟩, ⟨_, ⟨BigEndian.encode 8 created.toNat, BigEndian.encode_length ..⟩, _, rfl,
      ⟨_, identity, _, ⟨hi, rfl⟩, ⟨_, .ofNat hints.length, _, rfl, .inr ⟨?_, _, hints, [], ⟨hc.symm, hm, rfl⟩,
      ⟨rfl, ?_⟩, rfl⟩, rfl⟩, rfl⟩, rfl⟩, rfl⟩, rfl⟩, rfl⟩, ?_⟩
    · rw [hc]
      exact Nat.not_lt.mpr hl
    · rw [ht]
    · simp [BundleFields.body]

theorem readFields_recognizes :
    Recognizes readFields fun w fields =>
      Reparses fields.peerEncryptionPublicKey ∧ encodeFields fields = .ok w := by
  refine ((Recognizes.item _).bind fun bundleType => (Recognizes.throw _).ite
    (readBody_recognizes bundleType)).congr fun w fields => ?_
  simp only [encodeFields_eq_ok]
  constructor
  · rintro ⟨_, bundleType, _, rfl, ⟨_, ⟨⟩⟩ | ⟨ht, hk, hb, hi, rfl⟩, rfl⟩
    refine ⟨hk, hb, congrArg (· :: _) ?_⟩
    unfold BundleFields.bundleType
    split
    case isTrue hs => exact hi.mp hs
    case isFalse hs =>
      by_contra hn
      exact ht ⟨hn, fun h => hs (hi.mpr h)⟩
  · rintro ⟨hk, hb, rfl⟩
    refine ⟨_, fields.bundleType, _, rfl, .inr ⟨?_, hk, hb, ?_, rfl⟩, rfl⟩
    all_goals
      unfold BundleFields.bundleType
      split <;> simp_all [recoveryType, invitationType]

theorem decodeFields_eq_ok :
    decodeFields bytes = .ok fields ↔
      Reparses fields.peerEncryptionPublicKey ∧ encodeFields fields = .ok bytes := by
  rw [←readFields_recognizes.run_all]
  simp only [decodeFields, Except.bind_eq_ok, Prod.exists]
  constructor
  · rintro ⟨fields, c, hr, h⟩
    split at h
    case isFalse => cases h
    case isTrue hc =>
      cases h
      exact ⟨c, hr, List.isEmpty_iff.mp hc⟩
  · rintro ⟨c, hr, hc⟩
    exact ⟨fields, c, hr, if_pos (List.isEmpty_iff.mpr hc)⟩

variable [LawfulHpke]

-- The importer opens what the exporter has sealed.
theorem openBundle_sealBundle {exporting importing : EncryptionSecretKey}
    (hk : Reparses fields.peerEncryptionPublicKey)
    (h : sealBundle context exporting importing.publicKey fields rng = .ok envelope) :
    openBundle importing context.recipient context.sender exporting.publicKey envelope =
      .ok (context.queueId, context.messageId, fields) := by
  obtain ⟨plaintext, he, h⟩ := Except.bind_eq_ok.mp h
  obtain ⟨payload, hs, h⟩ := Except.bind_eq_ok.mp h
  cases h
  let ids := context.queueId.asBytes.toBytes ++ context.messageId.asBytes.toBytes
  have hi : ids.length = 64 := by
    simp [ids, context.queueId.asBytes.size, context.messageId.asBytes.size]
  have hv : (magic ++ [version] ++ context.queueId.asBytes.toBytes ++
      context.messageId.asBytes.toBytes ++ payload.asBytes) = magic ++ version :: (ids ++ payload.asBytes) := by
    simp [ids]
  have hl : ¬(magic ++ version :: (ids ++ payload.asBytes)).length < envelopeHeaderLen := by
    simp only [List.length_append, List.length_cons, hi, envelopeHeaderLen]
    omega
  -- What is left behind the identifiers is the payload.
  have hr : readIdentifiers.run ⟨ids ++ payload.asBytes, 0⟩ =
      .ok ((context.queueId, context.messageId), (Cursor.mk (ids ++ payload.asBytes) 0).advance ids.length) := by
    have hw : Reads readIdentifiers ids (context.queueId, context.messageId) :=
      .of_recognizes readIdentifiers_recognizes rfl
    exact hw.run_eq _ (Nat.zero_le _) (List.prefix_append ids payload.asBytes)
  have hc : ((Cursor.mk (ids ++ payload.asBytes) 0).advance ids.length).rest = payload.asBytes := by
    rw [Cursor.rest_advance]
    exact List.drop_left
  have hd := decodeFields_eq_ok.mpr ⟨hk, he⟩
  have ho := openMessage_sealMessage (Except.mapError_eq_ok.mp hs)
  have hm : slice (magic ++ version :: (ids ++ payload.asBytes)) 0 magic.length = magic := rfl
  have hn : (magic ++ version :: (ids ++ payload.asBytes))[magic.length]? = some version := rfl
  rw [hv, openBundle, if_neg (not_or.mpr ⟨hl, not_not.mpr hm⟩), if_neg (not_not.mpr hn)]
  refine Except.bind_eq_ok.mpr ⟨_, hr, ?_⟩
  simp only [hc]
  refine Except.bind_eq_ok.mpr ⟨payload, Except.mapError_eq_ok.mpr (Payload.new_eq_ok.mpr rfl), ?_⟩
  refine Except.bind_eq_ok.mpr ⟨plaintext, Except.mapError_eq_ok.mpr ho, ?_⟩
  exact Except.bind_eq_ok.mpr ⟨fields, hd, rfl⟩

-- Bundles carry exactly their fields.
theorem bundle_fields_exact :
    (∀ fields, (∃ e, encodeFields fields = .error e) ↔
      8 < fields.relayHints.length ∨ ∃ hint ∈ fields.relayHints, 256 < hint.length) ∧
    (∀ fields bytes, Reparses fields.peerEncryptionPublicKey → encodeFields fields = .ok bytes →
      decodeFields bytes = .ok fields ∧ (fields.ownIdentity.isSome ↔ bytes.head? = some recoveryType)) ∧
    (∀ bytes fields, decodeFields bytes = .ok fields → encodeFields fields = .ok bytes) ∧
    (∀ context exporting importing fields rng envelope, Reparses fields.peerEncryptionPublicKey →
      sealBundle context exporting importing.publicKey fields rng = .ok envelope →
      openBundle importing context.recipient context.sender exporting.publicKey envelope =
        .ok (context.queueId, context.messageId, fields)) := by
  refine ⟨fun _ => encodeFields_isError, fun fields bytes hk he => ⟨?_, ?_⟩, ?_, ?_⟩
  · exact decodeFields_eq_ok.mpr ⟨hk, he⟩
  · obtain ⟨_, rfl⟩ := encodeFields_eq_ok.mp he
    simp only [List.head?_cons, Option.some.injEq, BundleFields.bundleType]
    split <;> simp_all [recoveryType, invitationType]
  · exact fun bytes fields hd => (decodeFields_eq_ok.mp hd).right
  · exact fun _ _ _ _ _ _ => openBundle_sealBundle

end

namespace Exported

attribute [local instance] Toy.hpke

-- A recovery bundle with two hints, one of which is empty.
def fields : BundleFields where
  role                    := .recipient
  peerPrincipal           := ⟨Transfer.senderKey⟩
  peerEncryptionPublicKey := ⟨Transfer.senderKey⟩
  createdAtSecs           := 5
  ownIdentity             := some ⟨.replicate 32 6, .replicate 32 7⟩
  relayHints              := [[], [8, 9]]

def context : MessageContext :=
  ⟨Transfer.queue, ⟨Transfer.senderKey⟩, ⟨Transfer.recipientKey⟩, Transfer.messageId 0⟩

end Exported

open Exported in
attribute [local instance] Toy.hpke Toy.lawfulHpke in
theorem recovery_bundle_opened :
    ∃ envelope, sealBundle context ⟨Transfer.senderKey⟩
        (EncryptionSecretKey.publicKey ⟨Transfer.recipientKey⟩) fields () = .ok envelope ∧
      openBundle ⟨Transfer.recipientKey⟩ context.recipient context.sender
        (EncryptionSecretKey.publicKey ⟨Transfer.senderKey⟩) envelope =
        .ok (context.queueId, context.messageId, fields) := by
  have hs : (sealBundle context ⟨Transfer.senderKey⟩
      (EncryptionSecretKey.publicKey ⟨Transfer.recipientKey⟩) fields ()).toOption.isSome := by
    decide +kernel
  cases he : sealBundle context ⟨Transfer.senderKey⟩
    (EncryptionSecretKey.publicKey ⟨Transfer.recipientKey⟩) fields ()
  case error => rw [he] at hs; cases hs
  case ok envelope =>
    exact ⟨envelope, rfl, bundle_fields_exact.right.right.right _ _ _ _ _ _ rfl he⟩

end Cofferwire.Client.Offline
