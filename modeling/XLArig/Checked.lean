import XLArig.Client.Messages.Checked
import XLArig.Client.Messages.Crash
import XLArig.DaemonClient.Checked
import XLArig.DaemonClient.Inside
import XLArig.SelfSelectClient.Checked

/-!
# XLArig.Checked

The jobs that the clients hand to the miner.

A `Client` has the algorithm verified, but leaves the difficulty of a notification and the
length of the blob for the algorithm that the job has in the end.  A `DaemonClient` has
nothing verified.  A `SelfSelectClient` relies on its inner client, and on its daemon for
the rest.
-/

namespace XLArig

open Client (Line Messages)

end XLArig

namespace XLArig

open Client (Messages)
open Client.Messages (reading)

/-! ## Jobs that were checked, and others -/

/-- The notification of a CryptoNight job, with a blob of zeros and this target. -/
def notification (target : String) : Json :=
  .object [(bytes "jsonrpc", .string (bytes "2.0")), (bytes "method", .string (bytes "job")),
    (bytes "params", .object [(bytes "job_id", .string (bytes "2")),
      (bytes "blob", .string (List.replicate 152 0x30)), (bytes "algo", .string (bytes "cn/r")),
      (bytes "target", .string (bytes target))])]

theorem document_reading (doc : Json) : (reading doc).document doc.write = some doc :=
  if_pos rfl

/-- A client takes the notification. -/
theorem parse_notification (target : String) {p : Messages → Bool}
    (h : ((Messages.sample.parse (reading (notification target)) (notification target).write).toOption.any
      fun r => r.2 = .job ∧ p r.1 = true) = true) :
    ∃ t, Messages.sample.parse (reading (notification target)) (notification target).write =
      .ok (t, .job) ∧ p t = true := by
  obtain ⟨⟨t, l⟩, ht, hp⟩ := (Option.any_eq_true _ _).mp h
  obtain ⟨rfl, hp⟩ := of_decide_eq_true hp
  exact ⟨t, toOption_eq_some.mp ht, hp⟩

/-- The template of a daemon. -/
def daemonTemplate : Json :=
  .object [(bytes "blocktemplate_blob", .string (List.replicate 118 0x30)),
    (bytes "blockhashing_blob", .string (List.replicate 152 0x30)), (bytes "difficulty", .int 9)]

/-- A client of a daemon, for CryptoNight. -/
def daemonClient : DaemonClient := .init { DaemonClient.samplePool with algorithm := .CN_R } 1

instance (text : List UInt8) : Decidable (Job.SeedText text) := inferInstanceAs (Decidable (_ ∧ _))

instance (algorithm final : Algorithm) (blob : List UInt8) :
    Decidable (Job.LongEnough algorithm final blob) :=
  inferInstanceAs (Decidable (_ → _ → _))

namespace SelfSelectClient

instance (job : Job) (result : Json) : Decidable (HasSeed job result) :=
  inferInstanceAs (Decidable (_ ∨ _))

instance (s : SelfSelectClient) (result : Json) (blob : List UInt8) :
    Decidable (s.Suffices result blob) :=
  decidable_of_iff
    (s.job.diff ≠ 0 ∧
      (s.client.base.pool.coin.isValid = true →
        (s.finalAlgorithm blob).isValid = true ∧ s.Accepted (s.finalAlgorithm blob)) ∧
      Job.LongEnough s.job.algorithm (s.finalAlgorithm blob) blob ∧
      ((s.finalAlgorithm blob).family = .RANDOM_X → HasSeed s.job result))
    ⟨fun ⟨hdiff, hcoin, hnonce, hseed⟩ => ⟨hdiff, hcoin, hnonce, hseed⟩,
      fun ⟨hdiff, hcoin, hnonce, hseed⟩ => ⟨hdiff, hcoin, hnonce, hseed⟩⟩

instance (s : SelfSelectClient) : (e : Event) → Decidable (s.Asks e)
  | .onJobReceived _ => inferInstanceAs (Decidable (_ ∧ _))
  | .onVerifyAlgorithm .. | .onLoginSuccess | .onClose _ | .login .. | .ping _ | .connected _ |
      .elsewhere | .response .. | .submit .. | .reply .. | .tick _ | .resume =>
      inferInstanceAs (Decidable True)

/-- What the request that is answered was made from is the job. -/
def Own (s : SelfSelectClient) : Event → Prop
  | .response id _ => ∃ a ∈ s.asked id, a.version = s.version
  | .reply _ data _ =>
      ∀ result ∈ s.template data, ∀ blob ∈ result.getString (bytes "blockhashing_blob"),
        s.Suffices result blob
  | _ => True

instance (s : SelfSelectClient) : (e : Event) → Decidable (s.Own e)
  | .response id _ => inferInstanceAs (Decidable (∃ a ∈ s.asked id, _))
  | .reply .. => inferInstanceAs (Decidable (∀ result ∈ _, ∀ blob ∈ _, _))
  | .onVerifyAlgorithm .. | .onLoginSuccess | .onClose _ | .login .. | .ping _ | .connected _ |
      .elsewhere | .onJobReceived _ | .submit .. | .tick _ | .resume => inferInstanceAs (Decidable True)

theorem Own.pays {s : SelfSelectClient} {e : Event} (h : s.Own e) : s.Pays e := by
  cases e with
  | response id response => exact fun _ _ _ _ => ⟨id, h⟩
  | reply request data layer => exact h
  | _ => trivial

end SelfSelectClient

end XLArig
