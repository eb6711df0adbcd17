import Cofferwire.Client.Blob

namespace Cofferwire.Client.Blob

variable [Ed25519]

-- What is left of an uploader in memory, which is lost in a crash.
inductive Memory
  | idle (uploader : BlobUploader)
  -- The uploader advances from a stage.
  | running (stage : UploadStage) (program : Program interface Failure (UploadProgress × BlobUploader))
  | crashed

-- An uploader together with the last durable snapshot in its store.
structure Process where
  memory  : Memory
  durable : Option Bytes

-- A failed commit leaves the previous snapshot.
def Call.durable (durable : Option Bytes) : (c : Call) → c.Result → Option Bytes
  | commit state, .ok () => some state
  | _,            _      => durable

-- The events of an uploader with the stages from which it advances.
abbrev Trace := List (UploadStage × interface.Event)

namespace Process

variable [Ed25519Seeds] [Sha256] [ChaCha20Poly1305] [Hkdf]

-- The results of calls are arbitrary, and a process can crash at any point.
inductive Step (identity : BlobUploadIdentity) : Process → Trace → Process → Prop
  | advance : Step identity ⟨.idle u, d⟩ [] ⟨.running u.stage u.advance, d⟩
  | call {next : interface.Result c → _} (r : interface.Result c) :
    Step identity ⟨.running stage (.call c next), d⟩ [(stage, ⟨c, r⟩)]
      ⟨.running stage (next r), c.durable d r⟩
  | ok : Step identity ⟨.running stage (.done (.ok (progress, u))), d⟩ [] ⟨.idle u, d⟩
  | error : Step identity ⟨.running stage (.done (.error (.error e u))), d⟩ [] ⟨.idle u, d⟩
  | crash : Step identity ⟨m, d⟩ [] ⟨.crashed, d⟩
  | restore (h : BlobUploader.restore bytes identity = .ok u) :
    Step identity ⟨.crashed, some bytes⟩ [] ⟨.idle u, some bytes⟩

inductive Runs (identity : BlobUploadIdentity) (p : Process) : Trace → Process → Prop
  | refl : Runs identity p [] p
  | step (h : Runs identity p trace p') (hs : Step identity p' events p'') :
    Runs identity p (trace ++ events) p''

-- The stage of the last durable snapshot. An upload begins without one.
def stage (identity : BlobUploadIdentity) (p : Process) : UploadStage :=
  match p.durable with
  | none       => .begin
  | some bytes =>
    match BlobUploader.restore bytes identity with
    | .ok uploader => uploader.stage
    | .error _     => .begin

end Process

-- An upload with the given number of chunks moves from stage to stage.
inductive UploadStage.Follows (count : Nat) : UploadStage → UploadStage → Prop
  | begin : Follows count .begin (.chunk 0)
  | chunk (h : index + 1 < count) : Follows count (.chunk index) (.chunk (index + 1))
  | last (h : index + 1 = count) : Follows count (.chunk index) .commit
  | commit : Follows count .commit .complete

inductive UploadStage.Body : UploadStage → BlobResponseBody → Prop
  | begin : Body .begin (.beginUpload outcome)
  | chunk : Body (.chunk index) (.putChunk outcome)
  | commit : Body .commit (.commit expiresAt)

-- The response to a pending frame says that its stage is done.
def Pending.Confirmed (pending : Pending) (stage : UploadStage) (response : Bytes) : Prop :=
  ∃ body, stage.Body body ∧ Codec.Blob.decodeBlobResponse response =
    .ok ⟨pending.requestId, some pending.command, .ok, some body⟩

end Cofferwire.Client.Blob
