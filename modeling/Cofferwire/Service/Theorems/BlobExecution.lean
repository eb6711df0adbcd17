import Cofferwire.Service.Theorems.Release
import Cofferwire.Service.Theorems.Reuse

namespace Cofferwire.RelayService

open Codec.Blob (DecodedBlobRequest decodeBlobRequest decodeBlobResponse decodeBlobResponse_eq_ok)
open DurableRelay (blobEffect_eq_ok executeBlobRequest)

variable [Profile] [Ed25519] [Sha256]

-- A frame which is not let through because of its content cannot be admissible.
theorem exchangeBlobAt_of_admissible (ha : AdmissibleBlob bytes decoded) (service : RelayService)
    (now : Timestamp) (fault : Bool) :
    ∃ service' : RelayService, service'.relay = service.relay ∧
      ((∃ e, service.exchangeBlobAt bytes now fault = (.error e, service')) ∨
      service.exchangeBlobAt bytes now fault = service'.submit (blobCall bytes now decoded)
        (blobErrorResponse decoded.frame.requestId decoded.frame.request.command .authReplay)
        fault) := by
  have hs := screenBlob_screened service bytes now
  have hr := screenBlob_relay service bytes now
  unfold exchangeBlobAt
  generalize service.screenBlob bytes now = result at hs hr ⊢
  obtain ⟨_, service'⟩ := result
  refine ⟨service', hr, ?_⟩
  cases hs
  case refuse hn => exact absurd ha (hn decoded)
  case limit     => exact .inl ⟨_, rfl⟩
  case pass ha' =>
    cases ha.decode.symm.trans ha'.decode
    exact .inr rfl

variable (inputs : Nat → Input)

-- The request identifier of a frame has not been used for another frame with the same capability.
def Unique (n : Nat) (bytes : Bytes) (decoded : DecodedBlobRequest) : Prop :=
  ∀ m < n, ∀ bytes' now fault decoded', inputs m = .exchangeBlob bytes' now fault →
    AdmissibleBlob bytes' decoded' →
    decoded'.frame.request.capability = decoded.frame.request.capability →
    decoded'.frame.requestId = decoded.frame.requestId → bytes' = bytes

variable {inputs}

theorem Performs.of_blobCall (hp : Performs inputs m call response) (hn : call.ns = .blob) :
    ∃ bytes t fault decoded, inputs m = .exchangeBlob bytes t fault ∧ AdmissibleBlob bytes decoded ∧
      call = blobCall bytes t decoded := by
  obtain ⟨conflict, hc⟩ := hp.calls
  generalize inputs m = input at hc
  cases hc
  case queue   => cases hn
  case blob hd => exact ⟨_, _, _, _, rfl, hd, rfl⟩

-- An admissible frame with a unique identifier is answered by executing its request.
theorem Answers.performs (ha : Answers inputs n .blob bytes now response)
    (hd : AdmissibleBlob bytes decoded) (hu : Unique inputs n bytes decoded) :
    ∃ m ≤ n, ∃ t fault, inputs m = .exchangeBlob bytes t fault ∧
      Performs inputs m (blobCall bytes t decoded) response := by
  obtain ⟨hi, ho⟩ := ha
  generalize hn : inputs n = input at hi
  cases input <;> cases hi
  case exchangeBlob fault =>
    cases hl : Replay.lookup (database inputs n) .blob decoded.frame.request.capability.asBytes
      decoded.frame.requestId
    case some row =>
      obtain ⟨m, hm, call, response', hp, hc, rfl⟩ := performs_of_mem (Table.mem_of_lookup hl)
      obtain ⟨bytes', t, fault', decoded', hi, hd', rfl⟩ := hp.of_blobCall hc.symm
      have hk : ((blobCall bytes' t decoded').row response').key = _ := Table.key_of_lookup hl
      obtain ⟨hk, hk'⟩ := Prod.mk.inj hk
      obtain rfl := hu m hm bytes' t fault' decoded' hi hd' (congrArg CapabilityId.fromBytes hk)
        (congrArg RequestId.fromBytes hk')
      cases hd.decode.symm.trans hd'.decode
      refine ⟨m, Nat.le_of_lt hm, t, fault', hi, ?_⟩
      -- The recorded response is repeated.
      obtain ⟨service, hr, hs⟩ := exchangeBlobAt_of_admissible hd (machine.state inputs n) now fault
      simp only [Machine.output, machine, hn, step, Option.some.injEq] at ho hs
      obtain ⟨e, he⟩ | he := hs
      all_goals rw [he] at ho
      · cases ho
      · cases fault
        case true => cases ho
        case false =>
          have hl : Replay.lookup service.relay (blobCall bytes' now decoded).ns
              (blobCall bytes' now decoded).subject (blobCall bytes' now decoded).requestId = _ :=
            (congrArg (Replay.lookup · .blob _ _) hr).trans hl
          have hb : ((blobCall bytes' t decoded).row response').request =
              (blobCall bytes' now decoded).request := rfl
          rw [submit_recorded hl, if_pos hb] at ho
          cases ho
          exact hp
    case none =>
      have hf : (database inputs n).Fresh (blobCall bytes now decoded) := Table.lookup_eq_none.mp hl
      have hc : ∃ conflict, Calls (inputs n) (blobCall bytes now decoded) conflict := by
        rw [hn]
        exact ⟨_, .blob hd⟩
      have hs := machine_step inputs n
      generalize hx : database inputs (n + 1) = database' at hs
      rw [ho] at hs
      obtain ⟨_, hc⟩ := hc
      cases hs
      case refuse hn _ => exact absurd hc (hn _ _)
      case serve hc' hs =>
        obtain ⟨rfl, rfl⟩ := hc.unique hc'
        cases hs
        case replay hm      => exact absurd rfl (hf _ hm)
        case conflict hm hk => exact absurd hk (hf _ hm)
        case perform _ ha   => exact ⟨n, le_refl n, now, fault, hn, ⟨_, hc⟩, hf, ho, _, ha, hx⟩

theorem Performs.succeeds (hp : Performs inputs m (blobCall bytes t decoded) response)
    (hx : executeBlobRequest decoded.frame.request t (blobTables inputs m) = .ok (body, tables)) :
    blobTables inputs (m + 1) = tables ∧
      decodeBlobResponse response = .ok ⟨decoded.frame.requestId,
        { command := decoded.frame.request.command, status := .ok, body }⟩ := by
  obtain ⟨transaction, ha, hd⟩ := hp.answered
  have he : (blobCall bytes t decoded).effect (database inputs m).store = .ok (body, _) :=
    blobEffect_eq_ok.mpr ⟨tables, hx, rfl⟩
  cases ha
  case rejection hr =>
    obtain ⟨_, hr, _⟩ := hr
    cases hr.symm.trans he
  case success value store hs =>
    cases hs.symm.trans he
    have hw := executeBlobRequest_wellFormed (blobTables_valid inputs m) hx
    exact ⟨congrArg (·.store.blob) hd, decodeBlobResponse_eq_ok.mpr ⟨hw, rfl⟩⟩

-- If the request succeeds whenever its frame is received, the answer says so.
theorem Answers.succeeds (ha : Answers inputs n .blob bytes now response)
    (hd : AdmissibleBlob bytes decoded) (hu : Unique inputs n bytes decoded)
    (hx : ∀ m ≤ n, ∀ t fault, inputs m = .exchangeBlob bytes t fault → ∃ body tables,
      executeBlobRequest decoded.frame.request t (blobTables inputs m) = .ok (body, tables)) :
    ∃ m ≤ n, ∃ t fault body, inputs m = .exchangeBlob bytes t fault ∧
      executeBlobRequest decoded.frame.request t (blobTables inputs m) =
        .ok (body, blobTables inputs (m + 1)) ∧
      decodeBlobResponse response = .ok ⟨decoded.frame.requestId,
        { command := decoded.frame.request.command, status := .ok, body }⟩ := by
  obtain ⟨m, hm, t, fault, hi, hp⟩ := ha.performs hd hu
  obtain ⟨body, tables, hx⟩ := hx m hm t fault hi
  obtain ⟨rfl, hr⟩ := hp.succeeds hx
  exact ⟨m, hm, t, fault, body, hi, hx, hr⟩

-- Objects are never removed.
theorem mem_objects_of_le (h : n ≤ k) (ho : object ∈ (blobTables inputs n).objects) :
    object ∈ (blobTables inputs k).objects := by
  induction h
  case refl => exact ho
  case step k _ hi =>
    obtain he | ⟨_, _, _, _, _, _, hs⟩ := blobTables_cases inputs k
    · exact he ▸ hi
    · exact hs.step.extends.left.subset hi

end Cofferwire.RelayService
